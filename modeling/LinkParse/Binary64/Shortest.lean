import LinkParse.Binary64.Basic

/-!
# Shortest decimal texts

A number is written with the fewest decimal digits that read back to it; of
several such digit strings the one nearest to the number is taken, and of
two equally near the larger.

The search works on whole numbers. One unit is 5 ^ 1074 times 10 ^ -1074, so
every finite number is a natural number of steps of 10 ^ -1074, and the
points half way to its neighbours are so after doubling. The grids of
multiples of 10 ^ k are tried from coarse to fine; the first with a point
that reads back gives the digits, and a grid that has such a point has one
next to the number.
-/

namespace LinkParse

namespace Binary64

/-- Decimal digits and the power of ten that they are multiplied with. -/
structure Decimal where
  digits : Nat
  power : Int
deriving Repr, DecidableEq

/-- A magnitude in steps of 10 ^ -1074. -/
def decimalSteps (m : Nat) : Nat := units m * Nat.pow 5 1074

/-- The numbers that read back to a magnitude, doubled: they lie between
the sums of its steps with those of its neighbours, ends included where the
magnitude is even. -/
def readsBack (m twice : Nat) : Bool :=
  let low := decimalSteps (m - 1) + decimalSteps m
  let high := decimalSteps m + decimalSteps (m + 1)
  if m % 2 = 0 then low ≤ twice && twice ≤ high else low < twice && twice < high

/-- The point of the grid of multiples of 10 ^ k that reads back to `m` and
is nearest to it, as a multiple. -/
def gridPoint? (m k : Nat) : Option Nat :=
  let step := Nat.pow 10 k
  let below := decimalSteps m / step
  let belowReads := readsBack m (2 * (below * step))
  let aboveReads := readsBack m (2 * ((below + 1) * step))
  let belowIsNearer := 2 * (decimalSteps m % step) < step
  if belowReads && (belowIsNearer || !aboveReads) then some below
  else if aboveReads then some (below + 1)
  else none

/-- Tries the grids from 10 ^ k down; the finest holds the number itself. -/
def searchGrids (m : Nat) : Nat → Decimal
  | 0 => ⟨decimalSteps m, -1074⟩
  | k + 1 =>
    match gridPoint? m (k + 1) with
    | some digits => ⟨digits, (k + 1 : Nat) - 1074⟩
    | none => searchGrids m k

/-- The shortest decimal of a positive magnitude. The first grid has a step
greater than the number: 30103 / 100000 exceeds the decimal logarithm of
two. -/
def shortest (m : Nat) : Decimal :=
  searchGrids m (Nat.log2 (decimalSteps m) * 30103 / 100000 + 2)

/-! ## Layout -/

/-- The digits in positional notation, without an exponent and without a
point after a whole number. -/
def Decimal.positional (d : Decimal) : String :=
  let digits := Nat.toDigits 10 d.digits
  if d.power ≥ 0 then String.ofList (digits ++ List.replicate d.power.natAbs '0')
  else
    let places := d.power.natAbs
    let padded := List.replicate (places + 1 - digits.length) '0' ++ digits
    let cut := padded.length - places
    String.ofList (padded.take cut ++ '.' :: padded.drop cut)

/-- One digit before the point, and a power of ten. -/
def Decimal.scientific (d : Decimal) : String :=
  let digits := Nat.toDigits 10 d.digits
  let power := d.power + (digits.length - 1 : Nat)
  let fraction := digits.drop 1
  String.ofList (digits.take 1 ++ (if fraction.isEmpty then [] else '.' :: fraction)) ++
    s!"e{power}"

def signText (negative : Bool) : String := if negative then "-" else ""

/-- The text of a number: shortest digits in positional notation, with the
sign of zero. -/
def text : Binary64 → String
  | nan => "NaN"
  | inf negative => signText negative ++ "inf"
  | finite negative m =>
    signText negative ++ if m.val = 0 then "0" else (shortest m).positional

/-- The text that always shows a fraction: a whole number ends in `.0`, and
numbers below 10 ^ -4 or from 10 ^ 16 on have an exponent. -/
def pointText : Binary64 → String
  | nan => "NaN"
  | inf negative => signText negative ++ "inf"
  | finite negative m =>
    signText negative ++
      if m.val = 0 then "0.0"
      else
        let d := shortest m
        let leading := d.power + ((Nat.toDigits 10 d.digits).length - 1 : Nat)
        if leading < -4 ∨ leading ≥ 16 then d.scientific
        else if d.power ≥ 0 then d.positional ++ ".0"
        else d.positional

end Binary64

end LinkParse
