import LinkParse.Binary64.Numeral
import LinkParse.Document.Yaml.Scalar
import LinkParse.Text.Bytes

/-!
# Tags of YAML

A tag names the type of a node. It is written with a handle, which stands
for the beginning of the tag, or in full between angle brackets. A tag is a
list of bytes, as it may be written with any bytes behind percent signs.
-/

namespace LinkParse

namespace Document

namespace Yaml

abbrev Tag := List UInt8

namespace Tag

/-- The tag of a type that every YAML text knows. -/
def core (name : String) : Tag := Text.bytes ("tag:yaml.org,2002:" ++ name)

def unspecific : Tag := Text.bytes "!"

/-- What the handles stand for that need no directive. -/
def defaultHandles : List (String × Tag) := [("!", unspecific), ("!!", core "")]

/-- The name behind the mark of a tag of one's own. -/
def ownName? (tag : Tag) : Option String :=
  match tag with
  | 33 :: name => String.fromUTF8? ⟨name.toArray⟩
  | _ => none

end Tag

/-! ## Reading -/

def isNameChar (c : Char) : Bool := c.isAlphanum || c == '_' || c == '-'

/-- The characters of a tag. The marks of lists may stand in a whole tag
only, as an abbreviated one may be an item of a list. -/
def isTagChar (whole : Bool) (c : Char) : Bool :=
  isNameChar c ||
    [';', '/', '?', ':', '@', '&', '=', '+', '$', '.', '!', '~', '*', '\'', '(', ')'].contains c ||
    (whole && [',', '[', ']'].contains c)

/-- The number of bytes that follow the first byte of a character. -/
def trailingBytes? (first : Nat) : Option Nat :=
  if first < 0x80 then some 0
  else if first < 0xC0 then none
  else if first < 0xE0 then some 1
  else if first < 0xF0 then some 2
  else if first < 0xF8 then some 3
  else none

/-- The bytes that the characters of a tag stand for, and the number of
these. So many bytes of a character are `due`, behind percent signs as the
first one was. -/
def tagBytes? (whole : Bool) : (due : Nat) → List Char → Option (List UInt8 × Nat)
  | due, '%' :: a :: b :: cs => do
    let byte ← naturalOfDigits? 16 [a, b]
    let due ←
      if due == 0 then trailingBytes? byte
      else if 0x80 ≤ byte && byte < 0xC0 then some (due - 1)
      else none
    let (bytes, used) ← tagBytes? whole due cs
    return (byte.toUInt8 :: bytes, used + 3)
  | due, cs =>
    if due != 0 then none
    else
      match cs with
      | c :: cs =>
        if isTagChar whole c then do
          let (bytes, used) ← tagBytes? whole 0 cs
          return (c.toNat.toUInt8 :: bytes, used + 1)
        else if c == '%' then none
        else some ([], 0)
      | [] => some ([], 0)

/-- A part of a tag that is not empty. A zero byte ends the tag. -/
def tagPart? (whole : Bool) (cs : List Char) : Option (Tag × Nat) := do
  let (bytes, used) ← tagBytes? whole 0 cs
  if used = 0 then none else some (bytes.takeWhile (· != 0), used)

/-- The tag behind its exclamation mark: the handle, which is empty if it
stands for nothing, the rest, and the number of characters. -/
def tagProperty? : List Char → Option (String × Tag × Nat)
  | '<' :: cs => do
    let (tag, used) ← tagPart? true cs
    if (cs.drop used).head? == some '>' then some ("", tag, used + 2) else none
  | cs => do
    let name := cs.takeWhile isNameChar
    match cs.drop name.length with
    | '!' :: more =>
      let (tag, used) ← tagPart? false more
      return ("!" ++ String.ofList name ++ "!", tag, name.length + 1 + used)
    | _ =>
      let (bytes, used) ← tagBytes? false 0 cs
      let tag := bytes.takeWhile (· != 0)
      if tag.isEmpty then return ("", Tag.unspecific, used) else return ("!", tag, used)

end Yaml

end Document

end LinkParse
