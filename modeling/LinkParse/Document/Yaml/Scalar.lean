import LinkParse.Binary64.Numeral
import LinkParse.Text.CodePoint

/-!
# Scalars of YAML

The text of a scalar in each of its styles: plain, in single or double
quotes, and the literal and folded blocks of lines. A reader here takes the
characters behind the mark that begins the scalar and gives its text with
the number of characters that it takes up.

A scalar other than a block may go over several lines. The blanks and line
breaks between two words of it are a `Gap`, which is folded: blanks at the
ends of lines go, a single break becomes a space, and of several breaks all
but the first stay.
-/

namespace LinkParse

namespace Document

namespace Yaml

/-! ## Characters -/

def isBlank (c : Char) : Bool := c == ' ' || c == '\t'

def isBreak (c : Char) : Bool := c == '\n' || c == '\u2028' || c == '\u2029'

/-- The text with all common line breaks written alike. -/
def withPlainBreaks : List Char → List Char
  | [] => []
  | '\r' :: '\n' :: cs => '\n' :: withPlainBreaks cs
  | c :: cs => (if c == '\r' || c == '\u0085' then '\n' else c) :: withPlainBreaks cs

def isPrintable (c : Char) : Bool :=
  let n := c.toNat
  n == 0x09 || n == 0x0A || n == 0x0D || (0x20 ≤ n && n ≤ 0x7E) || n == 0x85 ||
    (0xA0 ≤ n && n ≤ 0xFFFD) || 0x10000 ≤ n

/-- Whether a word is over: at a blank, a line break or the end. -/
def endsWord (cs : List Char) : Bool := cs.head?.all fun c => isBlank c || isBreak c

/-- A mark between documents, at the start of a line. -/
def isDocumentMark : List Char → Bool
  | '-' :: '-' :: '-' :: rest | '.' :: '.' :: '.' :: rest => endsWord rest
  | _ => false

/-- The marks that end a plain scalar within brackets and braces. -/
def isFlowMark (c : Char) : Bool :=
  c == ',' || c == '[' || c == ']' || c == '\x7b' || c == '\x7d'

/-! ## Gaps -/

/-- Blanks and line breaks in the course of a scalar: the blanks if there is
no break, else the breaks, both with the last one first, and the number of
blanks since the last break. `joined` tells that the gap begins with a break
that a backslash took out of the text. -/
structure Gap where
  blanks : List Char := []
  breaks : List Char := []
  column : Nat := 0
  joined : Bool := false
deriving Repr, DecidableEq

namespace Gap

def crossed (g : Gap) : Bool := g.joined || !g.breaks.isEmpty

def isEmpty (g : Gap) : Bool := !g.crossed && g.blanks.isEmpty

def push (g : Gap) (c : Char) : Gap :=
  if isBreak c then { g with blanks := [], breaks := c :: g.breaks, column := 0 }
  else if g.crossed then { g with column := g.column + 1 }
  else { g with blanks := c :: g.blanks }

def folded (g : Gap) : List Char :=
  if !g.crossed then g.blanks.reverse
  else if g.joined then g.breaks.reverse
  else
    match g.breaks.reverse with
    | ['\n'] => [' ']
    | '\n' :: more => more
    | breaks => breaks

def leadsToMark (g : Gap) (cs : List Char) : Bool :=
  g.crossed && g.column == 0 && isDocumentMark cs

end Gap

/-! ## What was read -/

/-- A text, the number of characters that it was read from, and whether
blanks and line breaks behind it lead to another line. -/
structure Found where
  text : List Char := []
  used : Nat := 0
  crossed : Bool := false
deriving Repr, DecidableEq

/-- The text with more in front of it, which was read from so many
characters. -/
def Found.behind (found : Found) (front : List Char) (used : Nat) : Found :=
  { found with text := front ++ found.text, used := used + found.used }

/-! ## Plain scalars -/

/-- The characters that have a meaning of their own at the start of a
value, beside dashes, question marks, colons and the marks of brackets. -/
def isIndicator (c : Char) : Bool :=
  ['#', '&', '*', '!', '|', '>', '\'', '"', '%', '@', Char.ofNat 0x60].contains c

/-- Whether a plain scalar can begin here. -/
def startsPlain (flow : Bool) : List Char → Bool
  | [] => false
  | c :: cs =>
    if c == '-' then !(cs.head?.any isBlank)
    else if c == '?' || c == ':' then !flow && !endsWord cs
    else !(isBlank c || isBreak c || isFlowMark c || isIndicator c)

/-- Whether a plain scalar is over behind a gap: at a comment, at a mark
between documents or, in a block, on a line that stands too far left; and
behind no gap at a colon that ends a key or at a mark of the brackets
around it. -/
def endsPlain (flow : Bool) (least : Nat) (gap : Gap) (cs : List Char) : Bool :=
  (!gap.isEmpty && cs.head? == some '#') || gap.leadsToMark cs ||
    (!flow && gap.crossed && gap.column < least) ||
    match cs with
    | ':' :: rest => endsWord rest
    | c :: _ => flow && isFlowMark c
    | [] => true

/-- A plain scalar from behind the given gap on, with the blanks and breaks
that follow it. -/
def plainBody? (flow : Bool) (least : Nat) : Gap → List Char → Option Found
  | gap, [] => some { crossed := gap.crossed }
  | gap, c :: cs =>
    if isBlank c || isBreak c then
      if c == '\t' && gap.crossed && gap.column < least then none
      else (plainBody? flow least (gap.push c) cs).map (·.behind [] 1)
    else if endsPlain flow least gap (c :: cs) then some { crossed := gap.crossed }
    else if flow && c == ':' && cs.head?.any (fun d => isFlowMark d || d == '?') then none
    else (plainBody? flow least {} cs).map (·.behind (gap.folded ++ [c]) 1)

/-! ## Quoted scalars -/

/-- Up to the closing mark; a doubled mark stands for one. -/
def singleQuotedBody? : Gap → List Char → Option Found
  | _, [] => none
  | gap, '\'' :: '\'' :: cs => (singleQuotedBody? {} cs).map (·.behind (gap.folded ++ ['\'']) 2)
  | gap, '\'' :: _ => some { text := gap.folded, used := 1 }
  | gap, c :: cs =>
    if isBlank c || isBreak c then (singleQuotedBody? (gap.push c) cs).map (·.behind [] 1)
    else if gap.leadsToMark (c :: cs) then none
    else (singleQuotedBody? {} cs).map (·.behind (gap.folded ++ [c]) 1)

/-- The character behind a backslash, unless it begins a code point. -/
def escaped? : Char → Option Char
  | '0' => some '\x00'
  | 'a' => some '\x07'
  | 'b' => some '\x08'
  | 't' | '\t' => some '\t'
  | 'n' => some '\n'
  | 'v' => some '\x0b'
  | 'f' => some '\x0c'
  | 'r' => some '\r'
  | 'e' => some '\x1b'
  | ' ' => some ' '
  | '"' => some '"'
  | '/' => some '/'
  | '\\' => some '\\'
  | 'N' => some '\u0085'
  | '_' => some '\u00a0'
  | 'L' => some '\u2028'
  | 'P' => some '\u2029'
  | _ => none

/-- The character of the code point that hexadecimal digits spell. -/
def hexChar? (digits : List Char) : Option Char :=
  (naturalOfDigits? 16 digits).bind Text.ofCodePoint?

/-- Up to the closing mark, with escapes behind backslashes. A backslash at
the end of a line takes the break out of the text. -/
def doubleQuotedBody? : Gap → List Char → Option Found
  | _, [] => none
  | gap, '"' :: _ => some { text := gap.folded, used := 1 }
  | gap, '\\' :: 'x' :: a :: b :: cs => do
    let c ← hexChar? [a, b]
    (doubleQuotedBody? {} cs).map (·.behind (gap.folded ++ [c]) 4)
  | gap, '\\' :: 'u' :: a :: b :: c :: d :: cs => do
    let c ← hexChar? [a, b, c, d]
    (doubleQuotedBody? {} cs).map (·.behind (gap.folded ++ [c]) 6)
  | gap, '\\' :: 'U' :: a :: b :: c :: d :: e :: f :: g :: h :: cs => do
    let c ← hexChar? [a, b, c, d, e, f, g, h]
    (doubleQuotedBody? {} cs).map (·.behind (gap.folded ++ [c]) 10)
  | gap, '\\' :: c :: cs =>
    if isBreak c then (doubleQuotedBody? { joined := true } cs).map (·.behind gap.folded 2)
    else
      match escaped? c with
      | some c => (doubleQuotedBody? {} cs).map (·.behind (gap.folded ++ [c]) 2)
      | none => none
  | gap, c :: cs =>
    if isBlank c || isBreak c then (doubleQuotedBody? (gap.push c) cs).map (·.behind [] 1)
    else if c == '\\' || gap.leadsToMark (c :: cs) then none
    else (doubleQuotedBody? {} cs).map (·.behind (gap.folded ++ [c]) 1)

/-! ## Blocks of lines -/

/-- What becomes of the line breaks at the end of a block: one stays, none,
or all. -/
inductive Chomping where
  | clip
  | strip
  | keep
deriving Repr, DecidableEq

def chomping? : Char → Option Chomping
  | '-' => some .strip
  | '+' => some .keep
  | _ => none

def takeChomping : List Char → Chomping × List Char
  | [] => (.clip, [])
  | c :: cs =>
    match chomping? c with
    | some chomping => (chomping, cs)
    | none => (.clip, c :: cs)

/-- Takes an indentation from one to nine off the front. -/
def takeIndentation? : List Char → Option (Option Nat × List Char)
  | [] => some (none, [])
  | c :: cs =>
    if c == '0' then none
    else if c.isDigit then some (some (decimalValue [c]), cs)
    else some (none, c :: cs)

/-- What the line of the mark says: the chomping, and the indentation beyond
that of the surroundings, if it is given. The two may stand in either order,
and a comment may follow them. -/
def blockHeader? (line : List Char) : Option (Chomping × Option Nat) := do
  let (first, rest) := takeChomping line
  let (indentation, rest) ← takeIndentation? rest
  let (chomping, rest) := if first == .clip then takeChomping rest else (first, rest)
  let rest := rest.dropWhile isBlank
  if rest.head?.all (· == '#') then some (chomping, indentation) else none

/-- The largest number of spaces before the first line that is not empty,
or on it, behind so many `spaces` on the first line and `most` on lines
before. -/
def detectIndentation? : (spaces most : Nat) → List Char → Option Nat
  | spaces, most, [] => some (max spaces most)
  | spaces, most, c :: cs =>
    if c == ' ' then detectIndentation? (spaces + 1) most cs
    else if isBreak c then detectIndentation? 0 (max spaces most) cs
    else if c == '\t' then none
    else some (max spaces most)

/-- The text of the lines read so far, with the last character first, the
break of the last line that is not empty, the breaks of empty ones behind
it, the last one first, and whether that line begins with a blank. -/
structure BlockText where
  text : List Char := []
  ending : List Char := []
  emptied : List Char := []
  indented : Bool := false
deriving Repr, DecidableEq

/-- Adds an empty line, of which only the break is left. -/
def BlockText.addEmpty (b : BlockText) (ending : Char) : BlockText :=
  { b with emptied := ending :: b.emptied }

/-- Adds the words of a line, with the last character first. In a folded
block a break between two lines that do not begin with a blank becomes a
space, or goes if there are empty lines. -/
def BlockText.add (folded : Bool) (b : BlockText) (words : List Char) (indented : Bool)
    (ending : List Char) : BlockText :=
  let joint :=
    if folded && b.ending == ['\n'] && !b.indented && !indented then
      if b.emptied.isEmpty then [' '] else []
    else b.ending
  { text := words ++ (b.emptied ++ (joint ++ b.text)), ending, emptied := [], indented }

/-- The text with its end chomped. -/
def BlockText.chomped (b : BlockText) (chomping : Chomping) : List Char :=
  match chomping with
  | .clip => (b.ending ++ b.text).reverse
  | .strip => b.text.reverse
  | .keep => (b.emptied ++ (b.ending ++ b.text)).reverse

/-- A line of a block as far as it was read: so many spaces of its
indentation, or its words, with the last character first. -/
inductive BlockLine where
  | margin (spaces : Nat)
  | words (read : List Char) (indented : Bool)
deriving Repr, DecidableEq

/-- The lines that have the indentation or are empty, behind those that were
read before, and the number of their characters. -/
def blockLines? (folded : Bool) (indentation : Nat) :
    BlockText → BlockLine → List Char → Option (BlockText × Nat)
  | b, .margin _, [] => some (b, 0)
  | b, .words read indented, [] => some (b.add folded read indented [], 0)
  | b, .words read indented, c :: cs =>
    let (b, line) :=
      if isBreak c then (b.add folded read indented [c], .margin 0)
      else (b, .words (c :: read) indented)
    (blockLines? folded indentation b line cs).map fun (b, used) => (b, used + 1)
  | b, .margin spaces, c :: cs =>
    let next (b : BlockText) (line : BlockLine) :=
      (blockLines? folded indentation b line cs).map fun (b, used) => (b, used + 1)
    if isBreak c then next (b.addEmpty c) (.margin 0)
    else if indentation ≤ spaces then next b (.words [c] (isBlank c))
    else if c == ' ' then next b (.margin (spaces + 1))
    else if c == '\t' then none
    else some (b, 0)

/-- A block of lines behind its mark. The lines have to stand at `least` or
further to the right. -/
def blockScalar? (folded : Bool) (least : Nat) (cs : List Char) : Option Found := do
  let line := cs.takeWhile (!isBreak ·)
  let below := cs.drop line.length
  let body := below.drop 1
  let (chomping, indentation) ← blockHeader? line
  let indentation ←
    match indentation with
    | some more => some (least - 1 + more)
    | none => (detectIndentation? 0 0 body).map fun n => max n (max least 1)
  let (b, used) ← blockLines? folded indentation {} (.margin 0) body
  return { text := b.chomped chomping, used := line.length + (below.take 1).length + used }

end Yaml

end Document

end LinkParse
