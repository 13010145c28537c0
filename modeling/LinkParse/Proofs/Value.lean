import LinkParse.Proofs.Ranking
import LinkParse.Proofs.Rounding
import Mathlib.Algebra.Order.Field.Basic
import Mathlib.Algebra.Order.Field.Rat
import Mathlib.Tactic.NormNum
import Mathlib.Tactic.Ring

/-!
# The values of numbers

Magnitudes are ordered as the units that they stand for (`units_le_units_iff`),
since rounding takes the units back to the magnitude.

An encoding is 64 bits, and its fields denote a rational number
(`valueOfBits`), which for a finite number is the number of its units
(`valueOfBits_bits`). Two orders are compared: the one of values, which `≤`
is for numbers, and the total order of encodings, which compares the bits as
signed integers after those below a set sign are complemented
(`rank_eq_toInt`). They agree on finite numbers but for the negative zero
(`rank_lt_rank_iff`), so on costs they agree (`Cost.rank_lt_rank_iff`). To
clamp a number into the range of costs keeps its place in the order of values
(`heldUnits_mono`, `Cost.heldUnits_clamp`).
-/

namespace LinkParse

namespace Binary64

/-! ## Units -/

theorem units_le_units_iff {m n : Nat} : units m ≤ units n ↔ m ≤ n := by
  have hle : ∀ {m n : Nat}, units m ≤ units n → m ≤ n := fun {m n} h => by
    have hnearest : nearest (units m) 1 ≤ nearest (units n) 1 := nearest_mono h
    rwa [nearest_units, nearest_units] at hnearest
  refine ⟨hle, fun h => ?_⟩
  by_contra hlt
  obtain rfl : m = n := Nat.le_antisymm h (hle (Nat.le_of_not_le hlt))
  exact hlt (Nat.le_refl _)

theorem units_zero : units 0 = 0 := rfl

theorem units_pos_iff {m : Nat} : 0 < units m ↔ 0 < m := by
  have h := units_le_units_iff (m := m) (n := 0)
  rw [units_zero] at h
  omega

/-! ## Signed units -/

theorem signedUnits_eq_zero_iff {s : Bool} {m : Nat} : signedUnits s m = 0 ↔ m = 0 := by
  rw [← Int.natAbs_eq_zero, natAbs_signedUnits, ← Nat.le_zero, ← Nat.le_zero, ← units_zero,
    units_le_units_iff]
  rfl

theorem abs_signedUnits_le (s : Bool) (m : Fin limit) :
    -(units (limit - 1) : Int) ≤ signedUnits s m ∧ signedUnits s m ≤ units (limit - 1) := by
  have hle : units m ≤ units (limit - 1) := units_le_units_iff.mpr (Nat.le_sub_one_of_lt m.isLt)
  have habs := natAbs_signedUnits s m
  omega

/-- A magnitude other than zero is found again from its units and its sign. -/
theorem ofSum_signedUnits (s : Bool) {m : Fin limit} (hm : m.val ≠ 0) :
    ofSum (signedUnits s m) = finite s m := by
  have hpos : 0 < units m := units_pos_iff.mpr (Nat.pos_of_ne_zero hm)
  have hsign : decide (signedUnits s m < 0) = s := by
    unfold signedUnits
    cases s with
    | false => simp
    | true => simp [hpos]
  unfold ofSum ofUnits
  rw [hsign, natAbs_signedUnits, nearest_units]
  exact dif_pos m.isLt

/-! ## Encodings -/

def fractionField (n : Nat) : Nat := n % 2 ^ 52

def exponentField (n : Nat) : Nat := n / 2 ^ 52 % 2 ^ 11

def signField (n : Nat) : Nat := n / 2 ^ 63 % 2

/-- The value of the unit. -/
def unit : ℚ := 2 ^ (-1074 : ℤ)

theorem unit_pos : 0 < unit := zpow_pos two_pos _

/-- The value of a finite encoding, read off its fields. Exponent 0 has no
leading bit. -/
def valueOfBits (n : Nat) : ℚ :=
  let magnitude : ℚ :=
    if exponentField n = 0 then (fractionField n : ℚ) * unit
    else ((2 ^ 52 + fractionField n : Nat) : ℚ) * 2 ^ ((exponentField n : ℤ) - 1075)
  if signField n = 1 then -magnitude else magnitude

theorem bits_finite_false (m : Fin limit) : (finite false m).bits = m := Nat.zero_add _

theorem bits_finite_true (m : Fin limit) : (finite true m).bits = 2 ^ 63 + m := rfl

theorem bits_lt (x : Binary64) : x.bits < 2 ^ 64 := by
  cases x with
  | nan => decide
  | inf s => cases s <;> decide
  | finite s m =>
      have hm : m.val < 2047 * 2 ^ 52 := m.isLt
      cases s with
      | false => rw [bits_finite_false]; omega
      | true => rw [bits_finite_true]; omega

theorem fields_bits (s : Bool) (m : Fin limit) :
    fractionField (finite s m).bits = m % 2 ^ 52 ∧ exponentField (finite s m).bits = m / 2 ^ 52 ∧
      (signField (finite s m).bits = 1 ↔ s = true) := by
  have hm : m.val < 2047 * 2 ^ 52 := m.isLt
  unfold fractionField exponentField signField
  cases s with
  | false =>
      rw [bits_finite_false]
      refine ⟨by omega, by omega, by simp; omega⟩
  | true =>
      rw [bits_finite_true]
      refine ⟨by omega, by omega, by simp; omega⟩

theorem units_mul_unit (m : Nat) : (units m : ℚ) * unit =
    if m / 2 ^ 52 = 0 then ((m % 2 ^ 52 : Nat) : ℚ) * unit
    else ((2 ^ 52 + m % 2 ^ 52 : Nat) : ℚ) * 2 ^ (((m / 2 ^ 52 : Nat) : ℤ) - 1075) := by
  unfold units unit
  rw [binade_eq]
  by_cases hsmall : m < 2 ^ 52
  · rw [if_pos hsmall, if_pos (Nat.div_eq_of_lt hsmall), Nat.mod_eq_of_lt hsmall]
  · have hquot : 0 < m / 2 ^ 52 := Nat.div_pos (Nat.not_lt.mp hsmall) (Nat.two_pow_pos 52)
    rw [if_neg hsmall, if_neg hquot.ne', Nat.cast_mul, mul_assoc]
    congr 1
    obtain ⟨e, he⟩ : ∃ e, m / 2 ^ 52 = e + 1 := ⟨m / 2 ^ 52 - 1, by omega⟩
    rw [he, Nat.add_sub_cancel, Nat.pow_eq, Nat.cast_pow, Nat.cast_ofNat, ← zpow_natCast,
      ← zpow_add₀ two_ne_zero]
    congr 1
    push_cast
    ring

/-- The fields of an encoding have the value of the number. -/
theorem valueOfBits_bits (s : Bool) (m : Fin limit) :
    valueOfBits (finite s m).bits = signedUnits s m * unit := by
  obtain ⟨hfraction, hexponent, hsign⟩ := fields_bits s m
  unfold valueOfBits signedUnits
  rw [hfraction, hexponent, ← units_mul_unit]
  cases s with
  | false => rw [if_neg (by rw [hsign]; decide)]; simp
  | true => rw [if_pos (hsign.mpr rfl)]; simp

/-! ## The total order -/

/-- The bits below the sign are complemented where the sign is set. -/
def totalKey (b : BitVec 64) : BitVec 64 := b ^^^ (b.sshiftRight 63 >>> 1)

theorem xor_ones {n m : Nat} (h : m < 2 ^ n) : m ^^^ (2 ^ n - 1) = 2 ^ n - 1 - m := by
  have hnot := congrArg BitVec.toNat (BitVec.xor_allOnes (x := BitVec.ofNat n m))
  rwa [BitVec.toNat_xor, BitVec.toNat_not, BitVec.toNat_allOnes, BitVec.toNat_ofNat,
    Nat.mod_eq_of_lt h] at hnot

theorem toInt_totalKey {n : Nat} (hn : n < 2 ^ 64) :
    (totalKey (BitVec.ofNat 64 n)).toInt = if n < 2 ^ 63 then (n : Int) else 2 ^ 63 - 1 - n := by
  have htoNat : (BitVec.ofNat 64 n).toNat = n := Nat.mod_eq_of_lt hn
  unfold totalKey
  split
  · next hsmall =>
    have hmsb : (BitVec.ofNat 64 n).msb = false := by
      rw [BitVec.msb_eq_decide, htoNat]
      exact decide_eq_false (Nat.not_le.mpr hsmall)
    have hzero : (BitVec.ofNat 64 n).sshiftRight 63 = 0#64 := by
      rw [BitVec.sshiftRight_eq_of_msb_false hmsb]
      apply BitVec.eq_of_toNat_eq
      rw [BitVec.toNat_ushiftRight, htoNat, Nat.shiftRight_eq_div_pow, Nat.div_eq_of_lt hsmall]
      rfl
    rw [hzero, show 0#64 >>> 1 = 0#64 from rfl, BitVec.xor_zero, BitVec.toInt_eq_toNat_cond,
      htoNat, if_pos (by omega)]
  · next hlarge =>
    have hmsb : (BitVec.ofNat 64 n).msb = true := by
      rw [BitVec.msb_eq_decide, htoNat]
      exact decide_eq_true (Nat.not_lt.mp hlarge)
    have hones : (BitVec.ofNat 64 n).sshiftRight 63 = BitVec.allOnes 64 := by
      rw [BitVec.sshiftRight_eq_of_msb_true hmsb]
      apply BitVec.eq_of_toNat_eq
      rw [BitVec.toNat_not, BitVec.toNat_ushiftRight, BitVec.toNat_not, htoNat,
        Nat.shiftRight_eq_div_pow, Nat.div_eq_of_lt (by omega)]
      rfl
    have hkey : n ^^^ (2 ^ 63 - 1) = 2 ^ 63 + (2 ^ 63 - 1 - (n - 2 ^ 63)) := by
      rw [← Nat.div_add_mod (n ^^^ (2 ^ 63 - 1)) (2 ^ 63), Nat.xor_div_two_pow,
        Nat.xor_mod_two_pow, show n / 2 ^ 63 = 1 by omega, show n % 2 ^ 63 = n - 2 ^ 63 by omega,
        show (2 ^ 63 - 1) % 2 ^ 63 = 2 ^ 63 - 1 from rfl, xor_ones (by omega)]
      rfl
    rw [hones, BitVec.toInt_eq_toNat_cond, BitVec.toNat_xor, htoNat,
      show (BitVec.allOnes 64 >>> 1).toNat = 2 ^ 63 - 1 from rfl, hkey, if_neg (by omega)]
    omega

theorem rank_eq_toInt (x : Binary64) : x.rank = (totalKey (BitVec.ofNat 64 x.bits)).toInt := by
  rw [toInt_totalKey x.bits_lt]
  rfl

/-! ## The order of values -/

/-- At most, as values; `nan` has none. The two zeros are equal. -/
protected def le : Binary64 → Binary64 → Prop
  | inf s, inf t => s = true ∨ t = false
  | inf s, finite _ _ => s = true
  | finite _ _, inf t => t = false
  | finite s a, finite t b => signedUnits s a ≤ signedUnits t b
  | _, _ => False

instance : LE Binary64 := ⟨Binary64.le⟩

instance : (x y : Binary64) → Decidable (x ≤ y)
  | inf s, inf t => inferInstanceAs (Decidable (s = true ∨ t = false))
  | inf s, finite _ _ => inferInstanceAs (Decidable (s = true))
  | finite _ _, inf t => inferInstanceAs (Decidable (t = false))
  | finite s a, finite t b => inferInstanceAs (Decidable (signedUnits s a ≤ signedUnits t b))
  | nan, _ => isFalse id
  | inf _, nan | finite _ _, nan => isFalse id

instance : LT Binary64 := ⟨fun x y => x ≤ y ∧ ¬ y ≤ x⟩

instance (x y : Binary64) : Decidable (x < y) := inferInstanceAs (Decidable (x ≤ y ∧ ¬ y ≤ x))

theorem rank_finite_false (m : Fin limit) : (finite false m).rank = m := by
  have hm : m.val < 2047 * 2 ^ 52 := m.isLt
  unfold rank
  rw [bits_finite_false, if_pos (hm.trans (by decide))]

theorem rank_finite_true (m : Fin limit) : (finite true m).rank = -1 - (m : Int) := by
  unfold rank
  rw [bits_finite_true, show topBit = 2 ^ 63 from rfl, if_neg (by omega)]
  push_cast
  omega

/-- The total order of encodings is that of the values, except that it takes the
negative zero for less than zero. -/
theorem rank_lt_rank_iff {s t : Bool} {a b : Fin limit}
    (ha : (finite s a).isNegativeZero = false) :
    (finite s a).rank < (finite t b).rank ↔ signedUnits s a < signedUnits t b := by
  have hmono := units_le_units_iff (m := a.val) (n := b.val)
  have hmono' := units_le_units_iff (m := b.val) (n := a.val)
  unfold signedUnits
  cases s with
  | false =>
      rw [rank_finite_false]
      cases t with
      | false =>
          rw [rank_finite_false]
          simp
          omega
      | true =>
          rw [rank_finite_true]
          simp
          omega
  | true =>
      have hpos : 0 < units a := by
        rw [units_pos_iff, Nat.pos_iff_ne_zero]
        simpa [isNegativeZero] using ha
      rw [rank_finite_true]
      cases t with
      | false =>
          rw [rank_finite_false]
          simp
          omega
      | true =>
          rw [rank_finite_true]
          simp
          omega

theorem ne_nan_of_le {x y : Binary64} (h : x ≤ y) : x ≠ nan ∧ y ≠ nan := by
  constructor
  · rintro rfl
    exact h.elim
  · rintro rfl
    cases x <;> exact h.elim

theorem le_refl {x : Binary64} (h : x ≠ nan) : x ≤ x := by
  cases x with
  | nan => exact absurd rfl h
  | inf s =>
      cases s with
      | false => exact Or.inr rfl
      | true => exact Or.inl rfl
  | finite s m => exact Int.le_refl (signedUnits s m)

/-- A number's units, and those of the greatest number in place of infinity. -/
def heldUnits : Binary64 → Int
  | nan => 0
  | inf s => signedUnits s (limit - 1)
  | finite s m => signedUnits s m

theorem heldUnits_mono {x y : Binary64} (h : x ≤ y) : x.heldUnits ≤ y.heldUnits := by
  have hends := abs_signedUnits_le
  cases x with
  | nan => exact h.elim
  | inf s =>
      cases y with
      | nan => exact h.elim
      | inf t =>
          rcases h with rfl | rfl
          · cases t <;> decide +kernel
          · cases s <;> decide +kernel
      | finite t b =>
          obtain rfl : s = true := h
          exact (hends t b).1
  | finite s a =>
      cases y with
      | nan => exact h.elim
      | inf t =>
          obtain rfl : t = false := h
          exact (hends s a).2
      | finite t b => exact h

end Binary64

/-! ## The values of costs -/

namespace Cost

theorem value_ofFinite (s : Bool) (m : Fin Binary64.limit) :
    (ofFinite (.finite s m) rfl).value = if m.val = 0 then .zero else .finite s m := by
  unfold ofFinite
  split
  · next h =>
    have hm : m.val = 0 := by
      cases s with
      | false => cases h
      | true => simpa [Binary64.isNegativeZero] using h
    rw [if_pos hm]
    rfl
  · next h =>
    split
    · next hm =>
      cases s with
      | false =>
          obtain rfl : m = ⟨0, by decide⟩ := Fin.ext hm
          rfl
      | true =>
          refine absurd ?_ h
          simpa [Binary64.isNegativeZero] using hm
    · rfl

theorem heldUnits_ofFinite (s : Bool) (m : Fin Binary64.limit) :
    (ofFinite (.finite s m) rfl).value.heldUnits = Binary64.signedUnits s m := by
  rw [value_ofFinite]
  split
  · next h => rw [Binary64.signedUnits_eq_zero_iff.mpr h]; rfl
  · rfl

theorem heldUnits_clamp {x : Binary64} (h : x ≠ .nan) :
    (clamp x h).value.heldUnits = x.heldUnits := by
  cases x with
  | nan => exact absurd rfl h
  | inf s => cases s <;> rfl
  | finite s m => exact heldUnits_ofFinite s m

theorem valueOfBits_bits (a : Cost) :
    Binary64.valueOfBits a.value.bits = a.value.heldUnits * Binary64.unit := by
  obtain ⟨x, hfinite, -⟩ := a
  cases x with
  | nan => cases hfinite
  | inf s => cases hfinite
  | finite s m => exact Binary64.valueOfBits_bits s m

theorem rank_lt_rank_iff (a b : Cost) :
    a.value.rank < b.value.rank ↔ a.value.heldUnits < b.value.heldUnits := by
  obtain ⟨x, hfinite, hzero⟩ := a
  obtain ⟨y, hfinite', -⟩ := b
  cases x with
  | nan => cases hfinite
  | inf s => cases hfinite
  | finite s m =>
      cases y with
      | nan => cases hfinite'
      | inf t => cases hfinite'
      | finite t n => exact Binary64.rank_lt_rank_iff hzero

end Cost

end LinkParse
