import LinkParse.Letters
import LinkParse.Text.Blank

/-!
# Connectors

A connector is one end of a link: a type tag of capitals, a sequence of
subtypes and the side of its word on which it attaches. It is written as a
grammar writes it, tag and subtypes followed by `+` (right) or `-` (left),
such as `Ss*b+`.

That the two parts are spelled in their alphabets is part of the type. The
tag and subtypes together are the connector's *body*; `make` and `parse`
are the two ways to obtain a connector from text.
-/

namespace LinkParse

/-- The side of its word on which a connector attaches. -/
inductive Direction where
  | left
  | right
deriving Repr, DecidableEq

namespace Direction

def suffix : Direction → Char
  | left => '-'
  | right => '+'

def opposite : Direction → Direction
  | left => right
  | right => left

def ofSuffix? (c : Char) : Option Direction :=
  if c = '+' then some right else if c = '-' then some left else none

theorem ofSuffix?_eq_some_iff {c : Char} {d : Direction} :
    ofSuffix? c = some d ↔ c = d.suffix := by
  cases d <;> simp only [ofSuffix?, suffix] <;> split <;> simp_all

end Direction

structure Connector where
  tag : String
  subtypes : List Char
  direction : Direction
  tag_ne_nil : tag.toList ≠ []
  tag_letters : ∀ c ∈ tag.toList, isTagChar c = true
  subtype_letters : ∀ c ∈ subtypes, isSubtypeChar c = true
deriving DecidableEq

namespace Connector

/-- What keeps a text from being a connector. -/
inductive Reason where
  | emptyTag
  | tagChar (c : Char)
  | subtypeChar (c : Char)
  | noDirection
deriving Repr, DecidableEq

def Reason.message : Reason → String
  | emptyTag => "type tag is empty"
  | tagChar c => s!"type tag character '{c}' is not uppercase"
  | subtypeChar c => s!"subtype character '{c}' is not lowercase or '*'"
  | noDirection => "missing direction suffix '+' or '-'"

structure Malformed where
  text : String
  reason : Reason
deriving Repr, DecidableEq

def Malformed.message (e : Malformed) : String :=
  s!"Invalid connector '{e.text}': {e.reason.message}"

def body (c : Connector) : String := c.tag ++ String.ofList c.subtypes

/-- The written form, which `parse` reads back. -/
def text (c : Connector) : String := c.body.push c.direction.suffix

/-- A connector from its parts. Of several faults the first is reported:
an empty tag, then the tag's first wrong character, then that of the
subtypes. -/
def make (tag subtypes : String) (direction : Direction) : Except Malformed Connector :=
  let refuse (reason : Reason) : Except Malformed Connector :=
    .error ⟨(tag ++ subtypes).push direction.suffix, reason⟩
  if tag_ne_nil : tag.toList = [] then refuse .emptyTag
  else
    match tag_letters : tag.toList.find? (fun c => !isTagChar c) with
    | some c => refuse (.tagChar c)
    | none =>
      match subtype_letters : subtypes.toList.find? (fun c => !isSubtypeChar c) with
      | some c => refuse (.subtypeChar c)
      | none =>
        .ok {
          tag, subtypes := subtypes.toList, direction, tag_ne_nil,
          tag_letters := by simpa using List.find?_eq_none.1 tag_letters
          subtype_letters := by simpa using List.find?_eq_none.1 subtype_letters }

/-- Reads a connector from a text with blank ends allowed: the last
character gives the direction, the capitals at the start the tag. -/
def parse (s : String) : Except Malformed Connector :=
  let cs := Text.trimChars s.toList
  match cs.getLast?.bind Direction.ofSuffix? with
  | none => .error ⟨String.ofList cs, .noDirection⟩
  | some direction =>
    let body := cs.dropLast
    make (String.ofList (body.takeWhile isTagChar)) (String.ofList (body.dropWhile isTagChar))
      direction

end Connector

end LinkParse
