import LinkParse.Document.Toml.Scalar
import LinkParse.Document.Toml.Table

/-!
# TOML

The reader of TOML texts. A text is a list of lines: a header names the
table that the lines below it belong to, and each of these adds one value
to it. Arrays may go over several lines, tables within a line may not.
-/

namespace LinkParse

namespace Document

namespace Toml

/-! ## Between the values -/

/-- Passes over blanks, line breaks and comments. -/
def skipLines? : (inComment : Bool) → List Char → Option (List Char)
  | _, [] => some []
  | _, '\n' :: rest | _, '\r' :: '\n' :: rest => skipLines? false rest
  | true, c :: rest => if isTextChar c then skipLines? true rest else none
  | false, c :: rest =>
    if isBlank c then skipLines? false rest
    else if c = '#' then skipLines? true rest
    else some (c :: rest)

/-- Ends a line, on which nothing but a comment may follow. -/
def endLine? (cs : List Char) : Option (List Char) :=
  let rest :=
    match skipBlanks cs with
    | '#' :: more => more.dropWhile isTextChar
    | rest => rest
  if rest.isEmpty then some [] else afterBreak? rest

/-! ## Keys -/

def isBareChar (c : Char) : Bool := c.isAlphanum || c == '_' || c == '-'

/-- One part of a key: a string on one line, or bare characters. -/
def keyPart? (cs : List Char) : Option (String × List Char) :=
  let found? :=
    match cs with
    | '"' :: rest => basicBody? false false rest
    | '\'' :: rest => literalBody? false rest
    | cs =>
      if (cs.takeWhile isBareChar).isEmpty then none
      else some (cs.takeWhile isBareChar, cs.dropWhile isBareChar)
  found?.map fun (name, rest) => (String.ofList name, rest)

/-- The parts of a key, between which there are points, and what follows
the blanks behind it. A key has fewer parts than characters. -/
def keyParts? : Nat → List Char → Option (List String × List Char)
  | 0, _ => none
  | fuel + 1, cs => do
    let (name, rest) ← keyPart? (skipBlanks cs)
    match skipBlanks rest with
    | '.' :: rest =>
      let (names, rest) ← keyParts? fuel rest
      return (name :: names, rest)
    | rest => return ([name], rest)

/-- A key has at most 79 parts. -/
def key? (cs : List Char) : Option (List String × List Char) :=
  (keyParts? (cs.length + 1) cs).filter fun (names, _) => names.length < 80

/-! ## Values -/

/-- A reader of values, which gives what follows the value as well. -/
abbrev ValueReader := List Char → Option (Document × List Char)

/-- The items of an array up to its closing bracket, behind those already
read, which are in reverse. -/
def items? (value? : ValueReader) : Nat → List Document → ValueReader
  | 0, _, _ => none
  | fuel + 1, read, cs => do
    match ← skipLines? false cs with
    | ']' :: rest => return (.list read.reverse, rest)
    | cs =>
      let (item, rest) ← value? cs
      match ← skipLines? false rest with
      | ',' :: rest => items? value? fuel (item :: read) rest
      | ']' :: rest => return (.list (item :: read).reverse, rest)
      | _ => none

/-- A key, its value and what follows the blanks behind it. -/
def keyValue? (value? : ValueReader) (cs : List Char) :
    Option (List String × Document × List Char) := do
  match ← key? cs with
  | (path, '=' :: rest) =>
    let (d, rest) ← value? (skipBlanks rest)
    return (path, d, skipBlanks rest)
  | _ => none

/-- The entries of a table within a line up to its closing brace. -/
def inlineEntries? (value? : ValueReader) : Nat → Entries → ValueReader
  | 0, _, _ => none
  | fuel + 1, read, cs => do
    let (path, d, rest) ← keyValue? value? cs
    let read ← read.put? path d
    match rest with
    | ',' :: rest => inlineEntries? value? fuel read rest
    | '\x7d' :: rest => return (.map read.fields, rest)
    | _ => none

def inlineTable? (value? : ValueReader) (cs : List Char) : Option (Document × List Char) :=
  match skipBlanks cs with
  | '\x7d' :: rest => some (.map [], rest)
  | cs => inlineEntries? value? (cs.length + 1) [] cs

/-- A value with arrays and tables in it up to a depth. -/
def value? : Nat → ValueReader
  | depth + 1, '[' :: rest => items? (value? depth) (rest.length + 1) [] rest
  | depth + 1, '\x7b' :: rest => inlineTable? (value? depth) rest
  | _, cs => scalarFrom? cs

/-- Arrays and tables may be nested 79 times. -/
def deepValue? : ValueReader := value? 79

/-! ## Lines -/

/-- A header up to its closing brackets, and the rest behind its line. -/
def header? (closing : List Char) (cs : List Char) : Option (List String × List Char) := do
  let (path, rest) ← key? cs
  if closing.isPrefixOf rest then
    return (path, ← endLine? (rest.drop closing.length))
  else none

/-- Reads line after line. The lines so far have given `entries`, and
`header` names the table that the next value belongs to. -/
def lines? : Nat → (header : List String) → Entries → List Char → Option Entries
  | 0, _, _, _ => none
  | fuel + 1, header, entries, cs => do
    match ← skipLines? false cs with
    | [] => return entries
    | '[' :: '[' :: rest =>
      let (path, rest) ← header? [']', ']'] rest
      lines? fuel path (← entries.openItem? path) rest
    | '[' :: rest =>
      let (path, rest) ← header? [']'] rest
      lines? fuel path (← entries.openTable? path) rest
    | cs =>
      let (path, d, rest) ← keyValue? deepValue? cs
      lines? fuel header (← entries.putBelow? header path d) (← endLine? rest)

end Toml

/-- Reads a TOML text, which may begin with a byte order mark. -/
def ofToml? (s : String) : Option Document :=
  let cs :=
    match s.toList with
    | '\uFEFF' :: rest => rest
    | cs => cs
  (Toml.lines? (cs.length + 1) [] [] cs).map fun entries => .map entries.fields

end Document

end LinkParse
