import LinkParse.Sorting
import LinkParse.Text.Blank

/-!
# Rule references

A rule is named by a group and a name, written `group/name`, or the name
alone where the group is empty. The last slash separates the two, so a
group may hold slashes and a name may not.
-/

namespace LinkParse

structure RuleRef where
  group : String
  name : String
deriving Repr, DecidableEq

namespace RuleRef

def text (r : RuleRef) : String :=
  if r.group.isEmpty then r.name else r.group ++ "/" ++ r.name

/-- The text, trimmed, that names no rule because nothing follows its last
slash. -/
structure Malformed where
  text : String
deriving Repr, DecidableEq

def Malformed.message (e : Malformed) : String := s!"Invalid rule reference '{e.text}'"

/-- Splits at the last slash, if there is one. -/
def splitLastSlash : List Char → Option (List Char × List Char)
  | [] => none
  | c :: cs =>
    match splitLastSlash cs with
    | some (before, after) => some (c :: before, after)
    | none => if c = '/' then some ([], cs) else none

/-- Reads a reference. Blank ends of the whole text are cut off, blanks
around the slash belong to the parts. -/
def parse (s : String) : Except Malformed RuleRef :=
  let cs := Text.trimChars s.toList
  let (group, name) := (splitLastSlash cs).getD ([], cs)
  if name.isEmpty then .error ⟨String.ofList cs⟩
  else .ok ⟨String.ofList group, String.ofList name⟩

/-- By group, then by name. Code point order is the order of the UTF-8
bytes. -/
def order (a b : RuleRef) : Ordering := (compare a.group b.group).then (compare a.name b.name)

def sort (rs : List RuleRef) : List RuleRef := Sorting.sort (fun a b => (order a b).isLE) rs

end RuleRef

end LinkParse
