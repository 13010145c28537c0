import LinkParse.Binary64.Arithmetic
import LinkParse.Binary64.Numeral
import LinkParse.Binary64.Shortest
import LinkParse.Text.Blank

/-!
# Costs

A cost is a finite number other than the negative zero. On such numbers
equality of values and equality of encodings are the same thing, so costs
are totally ordered, and sums that would leave the range stay at its ends.
-/

namespace LinkParse

structure Cost where
  value : Binary64
  finite : value.isFinite = true
  not_negative_zero : value.isNegativeZero = false
deriving Repr, DecidableEq

namespace Cost

/-! ## Making costs -/

/-- A number that a caller must not make a cost of. -/
inductive Fault where
  | notFinite (value : Binary64)
  | notANumber
deriving Repr, DecidableEq

def Fault.message : Fault → String
  | notFinite value => s!"cost must be finite, got {value.text}"
  | notANumber => "cost must not be NaN"

def zero : Cost := ⟨.zero, Binary64.isFinite_zero, by decide⟩

def greatest : Cost := ⟨.greatest false, by decide, by decide⟩

def least : Cost := ⟨.greatest true, by decide, by decide⟩

/-- A finite number as a cost; both zeros give `zero`. -/
def ofFinite (x : Binary64) (finite : x.isFinite = true) : Cost :=
  if h : x.isNegativeZero = true then zero else ⟨x, finite, by simpa using h⟩

/-- The nearest cost: what lies beyond the range goes to its end. -/
def clamp : (x : Binary64) → x ≠ .nan → Cost
  | .nan, h => absurd rfl h
  | .inf negative, _ => if negative then least else greatest
  | .finite negative m, _ => ofFinite (.finite negative m) rfl

def of (x : Binary64) : Except Fault Cost :=
  if h : x.isFinite = true then .ok (ofFinite x h) else .error (.notFinite x)

def saturating (x : Binary64) : Except Fault Cost :=
  if h : x = .nan then .error .notANumber else .ok (clamp x h)

def ofInt (i : Int) : Cost := clamp (.ofInt i) (Binary64.ofUnits_ne_nan _ _ _)

/-! ## Reading -/

inductive Malformed where
  | notFinite (value : Binary64)
  | empty
  | notANumeral (text : String)
deriving Repr, DecidableEq

def Malformed.detail : Malformed → String
  | notFinite value => s!"Cost '{value.text}' is not finite"
  | empty => "Invalid cost '': cannot parse float from empty string"
  | notANumeral text => s!"Invalid cost '{text}': invalid float literal"

def Malformed.message (e : Malformed) : String := s!"Cost parse error: {e.detail}"

def ofNumber (x : Binary64) : Except Malformed Cost :=
  if h : x.isFinite = true then .ok (ofFinite x h) else .error (.notFinite x)

/-- Reads a cost from a text with blank ends allowed. -/
def parse (s : String) : Except Malformed Cost :=
  let cs := Text.trimChars s.toList
  if cs.isEmpty then .error .empty
  else
    match Binary64.parse? cs with
    | none => .error (.notANumeral (String.ofList cs))
    | some x => ofNumber x

/-! ## Sums and order -/

/-- Finite terms have a sum, so clamping it needs no check. -/
protected def add (a b : Cost) : Cost :=
  clamp (a.value + b.value) (Binary64.add_ne_nan a.finite b.finite)

protected def sub (a b : Cost) : Cost :=
  clamp (a.value - b.value)
    (Binary64.add_ne_nan a.finite (Binary64.isFinite_neg.trans b.finite))

instance : Add Cost := ⟨Cost.add⟩

instance : Sub Cost := ⟨Cost.sub⟩

/-- The sum in list order, each partial sum kept within the range. -/
def sum (cs : List Cost) : Cost := cs.foldl (· + ·) zero

def order (a b : Cost) : Ordering := a.value.totalOrder b.value

def isBetterThan (a b : Cost) : Bool := order a b == .lt

def isWorseThan (a b : Cost) : Bool := order a b == .gt

/-! ## Writing -/

def text (c : Cost) : String := c.value.text

def debugText (c : Cost) : String := s!"Cost({c.text})"

end Cost

end LinkParse
