import LinkParse.Binary64.Numeral
import LinkParse.Binary64.Shortest
import LinkParse.Document
import LinkParse.Text.CodePoint

/-!
# JSON

The reader and the writer of JSON texts. A number without a fraction and
without an exponent is whole; all others, and the negative zero, are
floating. Of entries with the same key the last one stands.
-/

namespace LinkParse

namespace Document

namespace Json

def skipBlank (cs : List Char) : List Char :=
  cs.dropWhile fun c => c == ' ' || c == '\n' || c == '\t' || c == '\r'

/-- The character behind a backslash, unless it begins a code point. -/
def escaped? : Char → Option Char
  | '"' => some '"'
  | '\\' => some '\\'
  | '/' => some '/'
  | 'b' => some '\x08'
  | 'f' => some '\x0c'
  | 'n' => some '\n'
  | 'r' => some '\r'
  | 't' => some '\t'
  | _ => none

/-- The characters of a string up to the closing mark, and what follows it.
Code points beyond 16 bits are written as two surrogates. -/
def stringBody? : List Char → Option (List Char × List Char)
  | [] => none
  | '"' :: rest => some ([], rest)
  | '\\' :: 'u' :: a :: b :: c :: d :: rest => do
    let high ← naturalOfDigits? 16 [a, b, c, d]
    if 0xD800 ≤ high ∧ high < 0xDC00 then
      match rest with
      | '\\' :: 'u' :: e :: f :: g :: h :: rest => do
        let low ← naturalOfDigits? 16 [e, f, g, h]
        if 0xDC00 ≤ low ∧ low < 0xE000 then
          let c ← Text.ofCodePoint? (0x10000 + (high - 0xD800) * 0x400 + (low - 0xDC00))
          let (cs, rest) ← stringBody? rest
          return (c :: cs, rest)
        else none
      | _ => none
    else
      let c ← Text.ofCodePoint? high
      let (cs, rest) ← stringBody? rest
      return (c :: cs, rest)
  | '\\' :: c :: rest => do
    let c ← escaped? c
    let (cs, rest) ← stringBody? rest
    return (c :: cs, rest)
  | c :: rest =>
    if c.toNat < 0x20 ∨ c = '\\' then none
    else do
      let (cs, rest) ← stringBody? rest
      return (c :: cs, rest)

def number? (cs : List Char) : Option Document := do
  let (negative, rest) :=
    match cs with
    | '-' :: rest => (true, rest)
    | rest => (false, rest)
  let whole := rest.takeWhile Char.isDigit
  let more := rest.dropWhile Char.isDigit
  if whole.isEmpty || (whole.length > 1 && whole.head? == some '0') then none
  else if more.isEmpty && !(negative && whole == ['0']) then
    let n := decimalValue whole
    return .int (if negative then -n else n)
  else
    let fraction ←
      match more with
      | '.' :: c :: _ => if c.isDigit then some () else none
      | '.' :: [] => none
      | _ => some ()
    let () := fraction
    let numeral ← Numeral.unsigned? negative rest
    return .float numeral.value

/-- Puts an entry into a map, in the place of an entry with the same key. -/
def putEntry (name : String) (value : Document) (entries : List (Key × Document)) :
    List (Key × Document) :=
  if entries.any (·.1 == .text name) then
    entries.map fun (key, old) => if key == .text name then (key, value) else (key, old)
  else entries ++ [(.text name, value)]

/-! ## Values

A value has fewer values in it than characters, so the number of characters
bounds the depth of the recursion. -/

mutual

def value? : Nat → List Char → Option (Document × List Char)
  | 0, _ => none
  | fuel + 1, cs =>
    match skipBlank cs with
    | '"' :: rest => (stringBody? rest).map fun (s, rest) => (.text (String.ofList s), rest)
    | '[' :: rest =>
      match skipBlank rest with
      | ']' :: rest => some (.list [], rest)
      | rest => items? fuel [] rest
    | '\x7b' :: rest =>
      match skipBlank rest with
      | '\x7d' :: rest => some (.map [], rest)
      | rest => entries? fuel [] rest
    | 't' :: 'r' :: 'u' :: 'e' :: rest => some (.bool true, rest)
    | 'f' :: 'a' :: 'l' :: 's' :: 'e' :: rest => some (.bool false, rest)
    | 'n' :: 'u' :: 'l' :: 'l' :: rest => some (.null, rest)
    | cs =>
      let isPart (c : Char) : Bool :=
        c.isDigit || c == '-' || c == '+' || c == '.' || c == 'e' || c == 'E'
      (number? (cs.takeWhile isPart)).map fun d => (d, cs.dropWhile isPart)

/-- The items of a list behind those already read, which are in reverse. -/
def items? : Nat → List Document → List Char → Option (Document × List Char)
  | 0, _, _ => none
  | fuel + 1, read, cs => do
    let (item, rest) ← value? fuel cs
    match skipBlank rest with
    | ',' :: rest => items? fuel (item :: read) rest
    | ']' :: rest => some (.list (item :: read).reverse, rest)
    | _ => none

/-- The entries of a map behind those already read. -/
def entries? : Nat → List (Key × Document) → List Char → Option (Document × List Char)
  | 0, _, _ => none
  | fuel + 1, read, cs => do
    match skipBlank cs with
    | '"' :: rest =>
      let (name, rest) ← stringBody? rest
      match skipBlank rest with
      | ':' :: rest =>
        let (value, rest) ← value? fuel rest
        let read := putEntry (String.ofList name) value read
        match skipBlank rest with
        | ',' :: rest => entries? fuel read rest
        | '\x7d' :: rest => some (.map read, rest)
        | _ => none
      | _ => none
    | _ => none

end

end Json

def ofJson? (s : String) : Option Document :=
  let cs := s.toList
  match Json.value? (cs.length + 1) cs with
  | some (d, rest) => if (Json.skipBlank rest).isEmpty then some d else none
  | none => none

/-! ## Writing -/

namespace Json

def escape (c : Char) : List Char :=
  if c = '"' then ['\\', '"']
  else if c = '\\' then ['\\', '\\']
  else if c = '\n' then ['\\', 'n']
  else if c.toNat < 0x20 then
    let digits := Nat.toDigits 16 c.toNat
    ['\\', 'u'] ++ List.replicate (4 - digits.length) '0' ++ digits
  else [c]

def addString (out s : String) : String :=
  (s.toList.foldl (fun out c => (escape c).foldl String.push out) (out.push '"')).push '"'

def keyText : Key → String
  | .text s => s
  | .position n => toString n
  | .other => ""

mutual

/-- Adds a value to a text. Values that JSON does not have are written as
null. -/
def add (out : String) : Document → String
  | .null | .moment => out ++ "null"
  | .bool b => out ++ if b then "true" else "false"
  | .int i => out ++ toString i
  | .float x => out ++ if x.isFinite then x.pointText else "null"
  | .text s => addString out s
  | .list items => (addItems (out.push '[') true items).push ']'
  | .map entries => (addEntries (out.push '\x7b') true entries).push '\x7d'

def addItems (out : String) (first : Bool) : List Document → String
  | [] => out
  | d :: ds => addItems (add (if first then out else out.push ',') d) false ds

def addEntries (out : String) (first : Bool) : List (Key × Document) → String
  | [] => out
  | (key, d) :: rest =>
    let out := if first then out else out.push ','
    addEntries (add ((addString out (keyText key)).push ':') d) false rest

end

end Json

/-- The JSON text of a document, on one line. -/
def toJson (d : Document) : String := Json.add "" d

end Document

end LinkParse
