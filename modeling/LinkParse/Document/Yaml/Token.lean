import LinkParse.Document.Yaml.Place
import LinkParse.Document.Yaml.Tag

/-!
# Tokens of YAML

The parts that a YAML text is made of: its marks, names, tags and scalars,
and the beginnings and ends of block collections, which have no marks of
their own but are told by columns.

Whether a node is a key shows only at the colon behind it. What may be one
is kept as a `Lead`, and the colon puts the token of a key in front of it,
with the beginning of a block mapping if the column is a new one.
-/

namespace LinkParse

namespace Document

namespace Yaml

/-- The ways to write a scalar of which some types depend. -/
inductive Style where
  | plain
  | quoted
  | literal
  | folded
deriving Repr, DecidableEq

inductive Token where
  | version (major minor : Nat)
  | handle (name : String) (tag : Tag)
  | documentStart
  | documentEnd
  | blockSequence
  | blockMapping
  | blockEnd
  | openSequence
  | closeSequence
  | openMapping
  | closeMapping
  | dash
  | comma
  | key
  | colon
  | anchor (name : String)
  | reference (name : String)
  | tag (handle : String) (rest : Tag)
  | scalar (style : Style) (s : String)
deriving Repr, DecidableEq

/-! ## Directives -/

def versionNumber? (cs : List Char) : Option (Nat × List Char) :=
  let digits := cs.takeWhile Char.isDigit
  if digits.isEmpty || 9 < digits.length then none
  else some (decimalValue digits, cs.drop digits.length)

/-- Whether nothing but a comment is left of a line. -/
def endsLine (line : List Char) : Bool := (line.dropWhile isBlank).head?.all (· == '#')

/-- The numbers of a version with a point between them. -/
def versionDirective? (line : List Char) : Option Token := do
  let (major, line) ← versionNumber? (line.dropWhile isBlank)
  match line with
  | '.' :: line =>
    let (minor, line) ← versionNumber? line
    if endsLine line then some (.version major minor) else none
  | _ => none

/-- A handle and the beginning of tags that it stands for. -/
def handleDirective? (line : List Char) : Option Token := do
  match line.dropWhile isBlank with
  | '!' :: line =>
    let name := line.takeWhile isNameChar
    let (handle, line) ←
      match line.drop name.length with
      | '!' :: line => some ("!" ++ String.ofList name ++ "!", line)
      | line => if name.isEmpty then some ("!", line) else none
    if !line.head?.any isBlank then none
    else
      let line := line.dropWhile isBlank
      let (tag, used) ← tagPart? true line
      let line := line.drop used
      if endsWord line && endsLine line then some (.handle handle tag) else none
  | _ => none

/-- What a line with a percent sign in front says. -/
def directive? (line : List Char) : Option Token :=
  let name := line.takeWhile isNameChar
  let line := line.drop name.length
  if !endsWord line then none
  else
    match String.ofList name with
    | "YAML" => versionDirective? line
    | "TAG" => handleDirective? line
    | _ => none

/-! ## Reading -/

/-- What may turn out to be a key: the number of tokens before it and its
place. It is `required` to be one if it stands in the column of the block
mapping around it. -/
structure Lead where
  before : Nat
  index : Nat
  line : Nat
  column : Nat
  required : Bool
deriving Repr, DecidableEq

/-- A key is on the line of its colon and not more than 1024 bytes before
it. -/
def Lead.reaches (lead : Lead) (p : Place) : Bool :=
  lead.line == p.line && p.index ≤ lead.index + 1024

/-- Where the reader of tokens stands. `tokens` are the ones read so far, the
last one first, and `count` is their number. `least` is the least column
within the innermost block collection and `outer` holds those of the
collections around it. `mayBegin` tells whether a key may begin, and `lead?`
what may be one; `brackets` holds the same for what is around each open
bracket. -/
structure Scan where
  place : Place
  tokens : List Token := []
  count : Nat := 0
  least : Nat := 0
  outer : List Nat := []
  mayBegin : Bool := true
  lead? : Option Lead := none
  brackets : List (Option Lead) := []
deriving Repr, DecidableEq

namespace Scan

def inFlow (s : Scan) : Bool := !s.brackets.isEmpty

def push (s : Scan) (t : Token) (used : Nat) : Scan :=
  { s with place := s.place.advance used, tokens := t :: s.tokens, count := s.count + 1 }

def skip (s : Scan) : Scan :=
  let (used, mayBegin) := skipped s.inFlow (s.place.column == 0) false s.mayBegin s.place.rest
  { s with place := s.place.advance used, mayBegin }

/-- Goes on without a key, which must not be required. -/
def dropLead? (s : Scan) : Option Scan :=
  if s.lead?.any (·.required) then none else some { s with lead? := none }

/-- Takes what begins here for a key, if one may begin. -/
def saveLead? (s : Scan) : Option Scan :=
  if s.mayBegin then do
    let s ← s.dropLead?
    let p := s.place
    let required := !s.inFlow && s.least == p.column + 1
    return { s with lead? := some ⟨s.count, p.index, p.line, p.column, required⟩ }
  else some s

/-- Puts tokens in front of the last ones, of which there are `behind`. -/
def insert (s : Scan) (behind : Nat) (tokens : List Token) : Scan :=
  { s with
    tokens := s.tokens.take behind ++ tokens.reverse ++ s.tokens.drop behind
    count := s.count + tokens.length }

/-- Begins a block collection in a column further to the right than that of
the collection around it, in front of so many tokens. -/
def openBlock (s : Scan) (column behind : Nat) (t : Token) : Scan :=
  if s.inFlow || column < s.least then s
  else { s.insert behind [t] with least := column + 1, outer := s.least :: s.outer }

/-- Ends block collections, of which the columns are given from the inside
to the outside, up to one that reaches as far to the left as `least`. -/
def closeBlocksFrom (least : Nat) : List Nat → Scan → Scan
  | [], s => s
  | l :: outer, s =>
    if least < s.least then
      closeBlocksFrom least outer { s.push .blockEnd 0 with least := l, outer }
    else s

def closeBlocks (s : Scan) (least : Nat) : Scan :=
  if s.inFlow then s else closeBlocksFrom least s.outer s

/-- A part of which the text decides whether it is a key. -/
def part? (s : Scan) (t : Token) (used : Nat) : Option Scan := do
  let s ← s.saveLead?
  return { s.push t used with mayBegin := false }

/-- A directive or a mark between documents, which ends all collections. -/
def between? (s : Scan) (t : Token) (used : Nat) : Option Scan := do
  let s ← (s.closeBlocks 0).dropLead?
  return { s.push t used with mayBegin := false }

def openBracket? (s : Scan) (t : Token) : Option Scan := do
  let s ← s.saveLead?
  return { s.push t 1 with mayBegin := true, lead? := none, brackets := s.lead? :: s.brackets }

def closeBracket? (s : Scan) (t : Token) : Option Scan := do
  let s := { (← s.dropLead?).push t 1 with mayBegin := false }
  match s.brackets with
  | lead? :: brackets => return { s with lead?, brackets }
  | [] => return s

def comma? (s : Scan) : Option Scan := do
  return { (← s.dropLead?).push .comma 1 with mayBegin := true }

/-- The mark of an item of a block sequence. -/
def dash? (s : Scan) : Option Scan := do
  if !s.inFlow && !s.mayBegin then none
  else
    let s ← (s.openBlock s.place.column 0 .blockSequence).dropLead?
    return { s.push .dash 1 with mayBegin := true }

/-- The mark of a key, which leaves the key any length. -/
def questionMark? (s : Scan) : Option Scan := do
  if !s.inFlow && !s.mayBegin then none
  else
    let s ← (s.openBlock s.place.column 0 .blockMapping).dropLead?
    return { s.push .key 1 with mayBegin := !s.inFlow }

/-- The colon behind a key, or one without a key in front of it. -/
def colon? (s : Scan) : Option Scan :=
  match s.lead?.filter (·.reaches s.place) with
  | some lead =>
    let behind := s.count - lead.before
    let s := (s.insert behind [.key]).openBlock lead.column (behind + 1) .blockMapping
    some { s.push .colon 1 with mayBegin := false, lead? := none }
  | none => do
    let s ← s.dropLead?
    if !s.inFlow && !s.mayBegin then none
    else
      let s := s.openBlock s.place.column 0 .blockMapping
      return { s.push .colon 1 with mayBegin := !s.inFlow }

/-- The name of an anchor or an alias behind its mark. -/
def name? (s : Scan) (token : String → Token) (cs : List Char) : Option Scan :=
  let name := cs.takeWhile isNameChar
  let rest := cs.drop name.length
  let ended := endsWord rest ||
    rest.head?.any ['?', ':', ',', ']', '\x7d', '%', '@', Char.ofNat 0x60].contains
  if name.isEmpty || !ended then none
  else s.part? (token (String.ofList name)) (name.length + 1)

/-- A tag behind its exclamation mark. Within brackets a comma may follow. -/
def tag? (s : Scan) (cs : List Char) : Option Scan := do
  let (handle, rest, used) ← tagProperty? cs
  let behind := cs.drop used
  if endsWord behind || (s.inFlow && behind.head? == some ',') then
    s.part? (.tag handle rest) (used + 1)
  else none

def quoted? (s : Scan) (found? : Option Found) : Option Scan := do
  let found ← found?
  s.part? (.scalar .quoted (String.ofList found.text)) (found.used + 1)

def block? (s : Scan) (folded : Bool) (cs : List Char) : Option Scan := do
  let s ← s.dropLead?
  let found ← blockScalar? folded s.least cs
  let style := if folded then Style.folded else .literal
  return { s.push (.scalar style (String.ofList found.text)) (found.used + 1) with
    mayBegin := true }

def plain? (s : Scan) : Option Scan := do
  if startsPlain s.inFlow s.place.rest then
    let found ← plainBody? s.inFlow s.least {} s.place.rest
    let s ← s.part? (.scalar .plain (String.ofList found.text)) found.used
    return { s with mayBegin := found.crossed }
  else none

/-- Reads a token from the characters at the place, of which `c` is the
first. -/
def token? (s : Scan) (c : Char) (cs : List Char) : Option Scan :=
  if c == '%' && s.place.column == 0 then do
    let line := cs.takeWhile (!isBreak ·)
    s.between? (← directive? line) (line.length + 1)
  else if s.place.atDocumentMark then
    s.between? (if c == '-' then .documentStart else .documentEnd) 3
  else if c == '[' then s.openBracket? .openSequence
  else if c == '\x7b' then s.openBracket? .openMapping
  else if c == ']' then s.closeBracket? .closeSequence
  else if c == '\x7d' then s.closeBracket? .closeMapping
  else if c == ',' then s.comma?
  else if c == '-' && endsWord cs then s.dash?
  else if c == '?' && (s.inFlow || endsWord cs) then s.questionMark?
  else if c == ':' && (s.inFlow || endsWord cs) then s.colon?
  else if c == '*' then s.name? .reference cs
  else if c == '&' then s.name? .anchor cs
  else if c == '!' then s.tag? cs
  else if (c == '|' || c == '>') && !s.inFlow then s.block? (c == '>') cs
  else if c == '\'' then s.quoted? (singleQuotedBody? {} cs)
  else if c == '"' then s.quoted? (doubleQuotedBody? {} cs)
  else s.plain?

/-- Reads to the end. Every token but the ends of block collections takes a
character or more, which bounds the number of steps. -/
def tokens? : Nat → Scan → Option (List Token)
  | 0, _ => none
  | fuel + 1, s =>
    let s := s.skip
    let s := s.closeBlocks (s.place.column + 1)
    match s.place.rest with
    | [] => ((s.closeBlocks 0).dropLead?).map (·.tokens.reverse)
    | c :: cs => (s.token? c cs).bind (tokens? fuel)

end Scan

/-- The tokens of a text with plain breaks. -/
def Token.ofChars? (cs : List Char) : Option (List Token) :=
  Scan.tokens? (cs.length + 1) { place := { rest := cs } }

end Yaml

end Document

end LinkParse
