import LinkParse.Binary64.Basic

/-!
# Sums and products

Each operation computes exactly in units and rounds once.
-/

namespace LinkParse

namespace Binary64

protected def neg : Binary64 → Binary64
  | nan => nan
  | inf s => inf !s
  | finite s m => finite (!s) m

instance : Neg Binary64 := ⟨Binary64.neg⟩

def ofSum (sum : Int) : Binary64 := ofUnits (sum < 0) sum.natAbs 1

/-- An exact sum of zero is positive unless both terms have the negative
sign, that is, both are the negative zero. -/
protected def add : Binary64 → Binary64 → Binary64
  | nan, _ => nan
  | _, nan => nan
  | inf s, inf t => if s = t then inf s else nan
  | inf s, finite _ _ => inf s
  | finite _ _, inf t => inf t
  | finite s a, finite t b =>
    let sum := signedUnits s a + signedUnits t b
    if sum = 0 then ofMagnitude (s && t) 0 else ofSum sum

instance : Add Binary64 := ⟨Binary64.add⟩

instance : Sub Binary64 := ⟨fun x y => x + -y⟩

/-- The signs multiply also where a factor is zero or infinite; zero times
infinity is no number. -/
protected def mul : Binary64 → Binary64 → Binary64
  | nan, _ => nan
  | _, nan => nan
  | inf s, inf t => inf (s != t)
  | inf s, finite t b => if b.val = 0 then nan else inf (s != t)
  | finite s a, inf t => if a.val = 0 then nan else inf (s != t)
  | finite s a, finite t b => ofUnits (s != t) (units a * units b) unitsOfOne

instance : Mul Binary64 := ⟨Binary64.mul⟩

theorem ofMagnitude_ne_nan (s : Bool) (m : Nat) : ofMagnitude s m ≠ nan := by
  unfold ofMagnitude
  split <;> simp

theorem ofUnits_ne_nan (s : Bool) (num den : Nat) : ofUnits s num den ≠ nan :=
  ofMagnitude_ne_nan s _

/-- Finite terms have a sum. -/
theorem add_ne_nan {x y : Binary64} (hx : x.isFinite = true) (hy : y.isFinite = true) :
    x + y ≠ nan := by
  cases x <;> cases y <;> simp_all only [isFinite, Bool.false_eq_true]
  change Binary64.add _ _ ≠ nan
  simp only [Binary64.add]
  split
  · exact ofMagnitude_ne_nan _ _
  · exact ofUnits_ne_nan _ _ _

theorem isFinite_neg {x : Binary64} : (-x).isFinite = x.isFinite := by
  cases x <;> rfl

end Binary64

end LinkParse
