/-!
# Double precision numbers

The numbers of the IEEE 754 format binary64, with all values that are no
number taken as one `nan`. A finite number is a sign and a *magnitude*: the
low 63 bits of its encoding read as a natural number. Magnitudes are ordered
as the numbers that they stand for, and neighbours in that order are
neighbours among the numbers.

The least positive number, 2 ^ -1074, is the *unit*: every finite number is
a whole multiple of it (`units`), so sums are exact in the integers. What a
computation gives exactly is brought back into the format by one function,
`nearest`, which rounds to the nearest number and a tie to the even
magnitude.
-/

namespace LinkParse

/-- The number of magnitudes that share an exponent, 2 ^ 52. -/
def Binary64.binade : Nat := Nat.pow 2 52

/-- Magnitudes of finite numbers lie below this bound, the magnitude of
infinity. -/
def Binary64.limit : Nat := 2047 * binade

inductive Binary64 where
  | nan
  | inf (negative : Bool)
  | finite (negative : Bool) (magnitude : Fin Binary64.limit)
deriving Repr, DecidableEq

namespace Binary64

/-! ## Exact values -/

/-- The value of a magnitude in units. The part above the low 52 bits is
the exponent; exponent 0 has no leading bit. -/
def units (m : Nat) : Nat :=
  if m < binade then m else (binade + m % binade) * Nat.pow 2 (m / binade - 1)

def unitsOfOne : Nat := Nat.pow 2 1074

def wholeUnits (n : Nat) : Nat := n * unitsOfOne

/-- A finite number's exact value in units. -/
def signedUnits (negative : Bool) (m : Nat) : Int := if negative then -(units m : Int) else units m

/-! ## Rounding -/

/-- The quotient to the nearest natural number, a tie to the even one. -/
def divNearest (num den : Nat) : Nat :=
  let q := num / den
  let r := num % den
  if 2 * r < den ∨ (2 * r = den ∧ q % 2 = 0) then q else q + 1

/-- The magnitude nearest to `num / den` units. A quotient of up to 53 bits
is rounded to a whole number of units; a longer one keeps its leading 53
bits, and each bit dropped raises the exponent by one. -/
def nearest (num den : Nat) : Nat :=
  let dropped := Nat.log2 (num / den) - 52
  dropped * binade + divNearest num (den * Nat.pow 2 dropped)

/-- The number of a sign and a magnitude; from `limit` on it is infinite. -/
def ofMagnitude (negative : Bool) (m : Nat) : Binary64 :=
  if h : m < limit then finite negative ⟨m, h⟩ else inf negative

def ofUnits (negative : Bool) (num den : Nat) : Binary64 := ofMagnitude negative (nearest num den)

def zero : Binary64 := ofMagnitude false 0

def one : Binary64 := ofMagnitude false (1023 * binade)

def greatest (negative : Bool) : Binary64 := ofMagnitude negative (limit - 1)

def ofInt (i : Int) : Binary64 := ofUnits (i < 0) (wholeUnits i.natAbs) 1

def ofNat (n : Nat) : Binary64 := ofUnits false (wholeUnits n) 1

/-! ## Classes -/

def isNan : Binary64 → Bool
  | nan => true
  | _ => false

def isFinite : Binary64 → Bool
  | finite _ _ => true
  | _ => false

theorem isFinite_zero : zero.isFinite = true := by decide

/-- Below zero; the negative zero is not. -/
def isBelowZero : Binary64 → Bool
  | nan => false
  | inf negative => negative
  | finite negative m => negative && m.val != 0

def isNegativeZero : Binary64 → Bool
  | finite true m => m.val == 0
  | _ => false

/-- Equality of numbers: the two zeros are equal, and `nan` equals
nothing. -/
def sameNumber : Binary64 → Binary64 → Bool
  | inf s, inf t => s == t
  | finite s a, finite t b => a == b && (s == t || a.val == 0)
  | _, _ => false

/-! ## Encoding -/

def topBit : Nat := Nat.pow 2 63

def signBit (negative : Bool) : Nat := if negative then topBit else 0

/-- The 64-bit encoding, with the quiet pattern for `nan`. -/
def bits : Binary64 → Nat
  | nan => limit + binade / 2
  | inf negative => signBit negative + limit
  | finite negative m => signBit negative + m

def ofBits (n : Nat) : Binary64 :=
  let m := n % topBit
  if m > limit then nan else ofMagnitude (n / topBit % 2 == 1) m

/-! ## Order -/

/-- The encoding as a signed integer whose order is the total order of
encodings: the magnitude for a positive sign, and for a negative one the
numbers below zero, so that -0 comes before 0. -/
def rank (x : Binary64) : Int :=
  if x.bits < topBit then x.bits else topBit - 1 - x.bits

def totalOrder (x y : Binary64) : Ordering := compare x.rank y.rank

end Binary64

end LinkParse
