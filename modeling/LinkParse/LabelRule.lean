import LinkParse.Connector

/-!
# Label rules

How the label of a link is spelled is a property of the grammar: a label
rule says which pairs of connectors agree and which label a pair gives.
The usual one is `subscriptIntersection`.
-/

namespace LinkParse

/-- Both parts are functions of the two connectors, the one on the left word
first. A label is not given as a text of its own: it is appended to what a
buffer holds. -/
structure LabelRule where
  agrees : Connector → Connector → Bool
  append : Connector → Connector → String → String

namespace LabelRule

/-- The label as a text: what an empty buffer holds afterwards. The same pair
always gives the same label. -/
def label (rule : LabelRule) (left right : Connector) : String := rule.append left right ""

/-- Two subtype sequences agree when at each position that both have, they
are equal or one of them is the wildcard. -/
def subtypesAgree : List Char → List Char → Bool
  | [], _ => true
  | _, [] => true
  | a :: as, b :: bs => (a == b || a == wildcard || b == wildcard) && subtypesAgree as bs

/-- Takes the definite subtype at each position, and the longer sequence's
tail as it stands. -/
def mergeSubtypes : List Char → List Char → List Char
  | [], bs => bs
  | as, [] => as
  | a :: as, b :: bs => (if a == wildcard then b else a) :: mergeSubtypes as bs

/-- Tags must be equal, and the subtypes merge position by position. -/
def subscriptIntersection : LabelRule where
  agrees l r := l.tag == r.tag && subtypesAgree l.subtypes r.subtypes
  append l r buffer := buffer ++ l.tag ++ String.ofList (mergeSubtypes l.subtypes r.subtypes)

theorem subscriptIntersection_label (l r : Connector) : subscriptIntersection.label l r =
    l.tag ++ String.ofList (mergeSubtypes l.subtypes r.subtypes) := by
  simp only [label, subscriptIntersection, String.empty_append]

/-- Tags must be equal, and the tag is the label. -/
def tagOnly : LabelRule where
  agrees l r := l.tag == r.tag
  append l _ buffer := buffer ++ l.tag

/-- Any two connectors agree, and the label joins their bodies. -/
def concatenation : LabelRule where
  agrees _ _ := true
  append l r buffer := buffer ++ l.body ++ r.body

/-- Any two connectors agree, and every link has the same label. -/
def constant (text : String) : LabelRule where
  agrees _ _ := true
  append _ _ buffer := buffer ++ text

end LabelRule

end LinkParse
