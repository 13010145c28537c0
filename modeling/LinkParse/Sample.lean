import LinkParse.Fault

/-!
# Sample sentences and rules

Small linkages that are written by the labels of their links, and rule sets
to analyse them with.
-/

namespace LinkParse

/-- One link of a sample: the label that it is to have, or the texts of its
two connectors. -/
inductive Sample.LinkText where
  | label (text : String)
  | connectors (left right : String)
deriving Repr, DecidableEq

namespace Sample

def connectorOfLabel (label : String) (direction : Direction) : Except Fault Connector :=
  let cs := label.toList
  (Connector.make (String.ofList (cs.takeWhile isTagChar)) (String.ofList (cs.dropWhile isTagChar))
    direction).mapError (.fixtureLabel label)

/-- A link between two words. Under the usual label rule a link that is
written by its label gets that label. -/
def link (left right : Nat) : LinkText → Except Fault Link
  | .label text => do
    let l ← connectorOfLabel text .right
    let r ← connectorOfLabel text .left
    (Link.make left right l r).mapError .link
  | .connectors ltext rtext => do
    let l ← (Connector.parse ltext).mapError (.builderConnector .left)
    let r ← (Connector.parse rtext).mapError (.builderConnector .right)
    (Link.make left right l r).mapError .link

def linkage (words : Nat) (links : List (Nat × Nat × LinkText)) (cost : Binary64) :
    Except Fault Linkage := do
  let links ← links.mapM fun (left, right, text) => link left right text
  (Linkage.make words links cost).mapError .linkage

/-- A linkage with the labels of the usual rule, and the table that holds
them. -/
def labeled (table : LabelTable) (k : Linkage) : Except Fault (LabelTable × Linkage) :=
  let labeling := k.deriveLabels .subscriptIntersection table
  match labeling.mismatch? with
  | some mismatch => .error (.mismatch mismatch)
  | none => .ok (labeling.table, labeling.linkage)

/-! ## Sentences -/

/-- A sentence by its words, the labels of its links and its cost. -/
structure Sentence where
  words : Nat
  links : List (Nat × Nat × String)
  cost : Nat := 0
deriving Repr, DecidableEq

def Sentence.linkage (s : Sentence) : Except Fault Linkage :=
  Sample.linkage s.words (s.links.map fun (left, right, label) => (left, right, .label label))
    (.ofNat s.cost)

def subjectObject : Sentence := ⟨4, [(0, 1, "Ss"), (1, 3, "Os")], 2⟩

def crossingClauses : Sentence := ⟨6, [(0, 3, "Ca"), (1, 5, "Cb"), (0, 1, "Wd")], 0⟩

def nestedClauses : Sentence := ⟨6, [(0, 3, "Ca"), (1, 3, "Cb"), (0, 1, "Wd")], 0⟩

def triangle : Sentence := ⟨4, [(0, 1, "Wd"), (1, 2, "Ss"), (0, 2, "Xp"), (2, 3, "MVp")], 0⟩

def disconnected : Sentence := ⟨4, [(0, 1, "Ds"), (2, 3, "Os")], 0⟩

def sentences : List (String × Sentence) :=
  [("subject_object", subjectObject), ("crossing_clauses", crossingClauses),
    ("nested_clauses", nestedClauses), ("triangle", triangle), ("disconnected", disconnected)]

/-! ## Rules, in TOML -/

def sampleRules : String := r#"
[[starters]]
pattern = "S"
domain = "subject"

[[starters]]
pattern = "C"
domain = "clause"

[[rules]]
id = "links/minimum"
message = "Linkage is empty"
[rules.check]
type = "minimum_links"
count = 1

[[rules]]
id = "domain/subject-no-crossing"
message = "Subject domains may not cross"
[rules.check]
type = "containment"
domain = "subject"

[[rules]]
id = "domain/subject-bounded"
[rules.check]
type = "bounded"
domain = "subject"

[[rules]]
id = "order/subject-before-object"
message = "Subject must precede object"
[rules.check]
type = "ordering"
selector = "S"
anchor = "O"
order = "before"

[[rules]]
id = "companion/object-needs-subject"
message = "Object without subject"
[rules.check]
type = "companion"
selector = "O"
companions = ["S"]

[[rules]]
id = "graph/connected"
message = "Linkage is not connected"
[rules.check]
type = "connected"
"#

def clauseRules : String := r#"
[[starters]]
pattern = "C"
domain = "clause"

[[rules]]
id = "clause/no-crossing"
message = "Clauses may not cross"
[rules.check]
type = "containment"
domain = "clause"
"#

def permissiveClauseRules : String := r#"
[[starters]]
pattern = "Ca"
domain = "clause"

[[starters]]
pattern = "Cb"
domain = "aside"

[[rules]]
id = "clause/no-crossing"
[rules.check]
type = "containment"
domain = "clause"
allow = ["Cb"]
"#

def ruleTexts : List (String × String) :=
  [("SAMPLE_RULES", sampleRules), ("CLAUSE_RULES", clauseRules),
    ("PERMISSIVE_CLAUSE_RULES", permissiveClauseRules)]

end Sample

end LinkParse
