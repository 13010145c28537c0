import LinkParse.Letters
import LinkParse.Text.Blank
import LinkParse.Text.Bytes

/-!
# Label patterns

A pattern selects labels. Its capitals must be exactly the label's leading
capitals. After them each byte of the pattern is either `*`, which takes
anything and also the end of the label, or must be the label's byte at the
same position. What the label has beyond the pattern's length is ignored:
`S` accepts `Ss`, `Sp` and `Spx`, and `S*b` accepts `Ssb` but not `Ss`.
-/

namespace LinkParse

structure Pattern where
  text : String
  starts_with_tag : text.toList.head?.any isTagChar = true
  subtype_letters : ∀ c ∈ text.toList.dropWhile isTagChar, isSubtypeChar c = true
deriving DecidableEq

namespace Pattern

/-- What keeps a text from being a pattern. -/
inductive Reason where
  | noTag
  | subtypeChar (c : Char)
deriving Repr, DecidableEq

def Reason.message : Reason → String
  | noTag => "must start with an uppercase type tag"
  | subtypeChar c => s!"subtype character '{c}' is not lowercase or '*'"

structure Malformed where
  text : String
  reason : Reason
deriving Repr, DecidableEq

def Malformed.message (e : Malformed) : String :=
  s!"Invalid label pattern '{e.text}': {e.reason.message}"

/-- The text as a pattern, taken as it stands. -/
def make (text : String) : Except Malformed Pattern :=
  if starts_with_tag : text.toList.head?.any isTagChar = true then
    match letters : (text.toList.dropWhile isTagChar).find? (fun c => !isSubtypeChar c) with
    | some c => .error ⟨text, .subtypeChar c⟩
    | none => .ok ⟨text, starts_with_tag, by simpa using List.find?_eq_none.1 letters⟩
  else .error ⟨text, .noTag⟩

def parse (s : String) : Except Malformed Pattern := make (Text.trim s)

/-! ## Matching -/

def isTagByte (b : UInt8) : Bool := 65 ≤ b && b ≤ 90

def wildcardByte : UInt8 := 42

/-- The subtype part: position by position, where the end of the label
stands for the wildcard. -/
def acceptsSubtypes : List UInt8 → List UInt8 → Bool
  | [], _ => true
  | p :: ps, [] => p == wildcardByte && acceptsSubtypes ps []
  | p :: ps, t :: ts => (p == wildcardByte || p == t) && acceptsSubtypes ps ts

/-- The tag part: as long as either side has a capital, both must have the
same one. -/
def acceptsBytes : List UInt8 → List UInt8 → Bool
  | [], [] => true
  | [], t :: _ => !isTagByte t
  | p :: ps, [] => !isTagByte p && acceptsSubtypes (p :: ps) []
  | p :: ps, t :: ts =>
    if isTagByte p || isTagByte t then p == t && acceptsBytes ps ts
    else acceptsSubtypes (p :: ps) (t :: ts)

def accepts (p : Pattern) (label : String) : Bool :=
  acceptsBytes (Text.bytes p.text) (Text.bytes label)

def acceptsAny (ps : List Pattern) (label : String) : Bool := ps.any (·.accepts label)

/-! ## Matching by positions

One position goes along both sides at once, and either of them may have ended
before it. -/

def isTagAt (bs : List UInt8) (i : Nat) : Bool := bs[i]?.any isTagByte

theorem lt_length_of_isTagAt {bs : List UInt8} {i : Nat} (h : isTagAt bs i = true) :
    i < bs.length := by
  cases hget : bs[i]? with
  | none => simp [isTagAt, hget] at h
  | some b => exact (List.getElem?_eq_some_iff.mp hget).1

/-- The first position from `i` on with a capital on neither side. There is
none if the sides differ before. -/
def tagEnd? (ps ts : List UInt8) (i : Nat) : Option Nat :=
  if isTagAt ps i || isTagAt ts i then
    if ps[i]? = ts[i]? then tagEnd? ps ts (i + 1) else none
  else some i
termination_by ps.length - i
decreasing_by
  -- a capital on one side is on both, so the pattern has not ended
  rename_i hcapital hsame
  have htag : isTagAt ps i = true := by simpa [isTagAt, hsame] using hcapital
  have hlt := lt_length_of_isTagAt htag
  omega

/-- Each byte of the pattern's rest, which begins at position `start`, against
the label's byte at the same position. -/
def fitsFrom (start : Nat) (rest ts : List UInt8) : Bool :=
  (rest.zipIdx start).all fun (p, i) => p == wildcardByte || p == ts[i]?.getD wildcardByte

/-- Whether the pattern accepts a label, where the cut behind the tag could be
out of range. -/
def acceptsByPosition (p : Pattern) (label : String) : Except Text.CutFault Bool :=
  let ps := Text.bytes p.text
  let ts := Text.bytes label
  match tagEnd? ps ts 0 with
  | none => .ok false
  | some i => do
    let rest ← Text.bytesFrom ps i
    return fitsFrom i rest ts

end Pattern

end LinkParse
