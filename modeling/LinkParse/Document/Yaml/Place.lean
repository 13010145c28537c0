import LinkParse.Document.Yaml.Scalar

/-!
# Places in a YAML text

The structure of a YAML text is in the columns at which its parts begin, so
a reader of it keeps its place: the characters that are left, and the line
and the column of the first of them.
-/

namespace LinkParse

namespace Document

namespace Yaml

/-- A place in a text. `index` counts the bytes before it. -/
structure Place where
  rest : List Char
  index : Nat := 0
  line : Nat := 0
  column : Nat := 0
deriving Repr, DecidableEq

namespace Place

def advance : Nat → Place → Place
  | 0, p => p
  | n + 1, p =>
    match p.rest with
    | [] => p
    | c :: rest =>
      let index := p.index + c.utf8Size
      advance n
        (if isBreak c then ⟨rest, index, p.line + 1, 0⟩
          else ⟨rest, index, p.line, p.column + 1⟩)

/-- Whether a mark between documents stands here. -/
def atDocumentMark (p : Place) : Bool := p.column == 0 && isDocumentMark p.rest

end Place

/-! ## Between the parts -/

/-- The number of blanks, breaks and characters of comments from here on,
and whether a key may begin behind them. In a block a key may begin on a new
line; where one may begin, a tab is no blank. A byte order mark at the start
of a line is passed over. -/
def skipped (flow : Bool) (lineStart inComment : Bool) :
    (mayBegin : Bool) → List Char → Nat × Bool
  | mayBegin, [] => (0, mayBegin)
  | mayBegin, c :: cs =>
    let pass (read : Nat × Bool) := (read.1 + 1, read.2)
    if isBreak c then pass (skipped flow true false (mayBegin || !flow) cs)
    else if inComment || c == '#' then pass (skipped flow false true mayBegin cs)
    else if c == ' ' || (c == '\t' && (flow || !mayBegin)) || (c == '\uFEFF' && lineStart) then
      pass (skipped flow false false mayBegin cs)
    else (0, mayBegin)

end Yaml

end Document

end LinkParse
