import LinkParse.Binary64.Arithmetic
import Mathlib.Algebra.Order.Group.Nat

/-!
# Rounding, sums and products

`nearest` takes a quotient to a magnitude. It is monotone (`nearest_mono`),
and a magnitude's own units give the magnitude back (`nearest_units`); so
what does not exceed a finite number is rounded to a finite one.

From this follows when operations leave the finite numbers. Finite terms
have a sum, infinite ones fail to have one only if they are opposite
(`add_eq_nan_iff`), and a term that is not below zero takes no sum down to
minus infinity (`add_eq_inf_true_iff`). A product of finite numbers that
are not below zero is not below zero (`IsNonneg.mul`).
-/

namespace LinkParse

namespace Binary64

theorem binade_eq : binade = 2 ^ 52 := rfl

/-! ## The nearest quotient -/

theorem div_le_divNearest (num den : Nat) : num / den ≤ divNearest num den := by
  unfold divNearest
  dsimp only
  split <;> omega

theorem divNearest_le (num den : Nat) : divNearest num den ≤ num / den + 1 := by
  unfold divNearest
  dsimp only
  split <;> omega

theorem divNearest_mul (q : Nat) {den : Nat} (hden : 0 < den) : divNearest (q * den) den = q := by
  unfold divNearest
  rw [Nat.mul_div_cancel _ hden, Nat.mul_mod_left]
  exact if_pos (Or.inl hden)

/-- Of two numbers with one quotient the one with the smaller remainder is
rounded up only if the other is. -/
theorem divNearest_mono {m n den : Nat} (h : m ≤ n) : divNearest m den ≤ divNearest n den := by
  rcases Nat.lt_or_eq_of_le (Nat.div_le_div_right h : m / den ≤ n / den) with hlt | heq
  · exact (divNearest_le m den).trans (Nat.le_trans hlt (div_le_divNearest n den))
  · have hm := Nat.div_add_mod m den
    have hn := Nat.div_add_mod n den
    rw [heq] at hm
    unfold divNearest
    rw [heq]
    dsimp only
    split <;> split <;> omega

/-! ## Dropped bits -/

/-- The number of trailing bits of a quotient that its rounding drops. -/
def dropped (num den : Nat) : Nat := Nat.log2 (num / den) - 52

theorem nearest_eq (num den : Nat) : nearest num den =
    dropped num den * binade + divNearest num (den * 2 ^ dropped num den) := rfl

theorem div_lt_of_dropped (num den : Nat) : num / den < 2 ^ (53 + dropped num den) := by
  have hlog := Nat.lt_log2_self (n := num / den)
  refine hlog.trans_le (Nat.pow_le_pow_right Nat.two_pos ?_)
  unfold dropped
  omega

theorem le_div_of_dropped {num den : Nat} (h : dropped num den ≠ 0) :
    2 ^ (52 + dropped num den) ≤ num / den := by
  have hpos : num / den ≠ 0 := by
    intro hzero
    rw [dropped, hzero] at h
    exact h rfl
  have hlog : 52 + dropped num den = Nat.log2 (num / den) := by
    unfold dropped at *
    omega
  rw [hlog]
  exact Nat.log2_self_le hpos

/-- The leading bits of a quotient determine how many are dropped. -/
theorem dropped_le_of {num den p : Nat} (h : num / den < 2 ^ (53 + p)) : dropped num den ≤ p := by
  by_contra hlt
  have hle := le_div_of_dropped (show dropped num den ≠ 0 by omega)
  have hpow : 2 ^ (53 + p) ≤ 2 ^ (52 + dropped num den) :=
    Nat.pow_le_pow_right Nat.two_pos (by omega)
  omega

theorem le_dropped_of {num den p : Nat} (h : 2 ^ (52 + p) ≤ num / den) : p ≤ dropped num den := by
  have hlt := h.trans_lt (div_lt_of_dropped num den)
  have := (Nat.pow_lt_pow_iff_right (by decide : 1 < 2)).mp hlt
  omega

theorem dropped_mono {m n den : Nat} (h : m ≤ n) : dropped m den ≤ dropped n den :=
  dropped_le_of ((Nat.div_le_div_right h).trans_lt (div_lt_of_dropped n den))

/-- What is kept are at most 53 bits. -/
theorem kept_lt (num den : Nat) : num / (den * 2 ^ dropped num den) < 2 * binade := by
  rw [← Nat.div_div_eq_div_mul, Nat.div_lt_iff_lt_mul (Nat.two_pow_pos _), binade_eq,
    ← Nat.pow_succ', ← Nat.pow_add]
  exact div_lt_of_dropped num den

/-- Where bits are dropped, exactly 53 are kept. -/
theorem binade_le_kept {num den : Nat} (h : dropped num den ≠ 0) :
    binade ≤ num / (den * 2 ^ dropped num den) := by
  rw [← Nat.div_div_eq_div_mul, Nat.le_div_iff_mul_le (Nat.two_pow_pos _), binade_eq, ← Nat.pow_add]
  exact le_div_of_dropped h

/-! ## The nearest magnitude -/

theorem nearest_le (num den : Nat) : nearest num den ≤ (dropped num den + 2) * binade := by
  have hkept := kept_lt num den
  have hround := divNearest_le num (den * 2 ^ dropped num den)
  rw [nearest_eq, Nat.add_mul]
  omega

theorem le_nearest {num den : Nat} (h : dropped num den ≠ 0) :
    (dropped num den + 1) * binade ≤ nearest num den := by
  have hkept := binade_le_kept h
  have hround := div_le_divNearest num (den * 2 ^ dropped num den)
  rw [nearest_eq, Nat.add_mul]
  omega

/-- A greater quotient is not rounded to a smaller magnitude. -/
theorem nearest_mono {m n den : Nat} (h : m ≤ n) : nearest m den ≤ nearest n den := by
  rcases Nat.lt_or_eq_of_le (dropped_mono h : dropped m den ≤ dropped n den) with hlt | heq
  · -- the greater one has a greater exponent, which outweighs any carry
    calc nearest m den ≤ (dropped m den + 2) * binade := nearest_le m den
      _ ≤ (dropped n den + 1) * binade := Nat.mul_le_mul_right _ (by omega)
      _ ≤ nearest n den := le_nearest (by omega)
  · rw [nearest_eq, nearest_eq, heq]
    exact Nat.add_le_add_left (divNearest_mono h) _

theorem nearest_zero (den : Nat) : nearest 0 den = 0 := by
  unfold nearest divNearest
  rw [Nat.zero_div]
  simp [eq_comm]

/-- Every magnitude is the nearest one to its own value. -/
theorem nearest_units (m : Nat) : nearest (units m) 1 = m := by
  unfold units
  split
  · next hsmall =>
    have hzero : dropped m 1 = 0 := Nat.le_zero.mp (dropped_le_of (by
      rw [Nat.div_one]
      exact hsmall.trans (by decide)))
    have hexact := divNearest_mul m Nat.one_pos
    rw [Nat.mul_one] at hexact
    rw [nearest_eq, hzero, Nat.zero_mul, Nat.zero_add]
    exact hexact
  · next hlarge =>
    have hdiv := Nat.div_add_mod m binade
    have hmod : m % binade < binade := Nat.mod_lt _ (Nat.two_pow_pos 52)
    have hquot : 0 < m / binade := Nat.div_pos (Nat.not_lt.mp hlarge) (Nat.two_pow_pos 52)
    generalize m / binade = q at *
    generalize m % binade = f at *
    have hdropped : dropped ((binade + f) * 2 ^ (q - 1)) 1 = q - 1 := by
      apply Nat.le_antisymm
      · refine dropped_le_of ?_
        rw [Nat.div_one, Nat.pow_add]
        exact Nat.mul_lt_mul_of_pos_right (by rw [binade_eq] at *; omega) (Nat.two_pow_pos _)
      · refine le_dropped_of ?_
        rw [Nat.div_one, Nat.pow_add]
        exact Nat.mul_le_mul_right _ (by rw [binade_eq]; omega)
    show nearest ((binade + f) * 2 ^ (q - 1)) 1 = m
    rw [nearest_eq, hdropped, Nat.one_mul, divNearest_mul _ (Nat.two_pow_pos _), ← hdiv]
    obtain ⟨e, rfl⟩ : ∃ e, q = e + 1 := ⟨q - 1, by omega⟩
    rw [Nat.add_sub_cancel, Nat.mul_add, Nat.mul_one, Nat.mul_comm]
    omega

/-- What does not exceed a finite number is rounded to a finite number. -/
theorem isFinite_ofUnits_of_le {s : Bool} {n m : Nat} (h : n ≤ units m) (hm : m < limit) :
    (ofUnits s n 1).isFinite = true := by
  have hlt : nearest n 1 < limit := ((nearest_mono h).trans_eq (nearest_units m)).trans_lt hm
  unfold ofUnits ofMagnitude
  rw [dif_pos hlt]
  rfl

theorem wholeUnits_le_units_greatest : wholeUnits (2 ^ 1023) ≤ units (limit - 1) := by
  decide +kernel

/-- Whole numbers are rounded to finite numbers far beyond all counts. -/
theorem isFinite_ofUnits_wholeUnits (s : Bool) {n : Nat} (h : n ≤ 2 ^ 1023) :
    (ofUnits s (wholeUnits n) 1).isFinite = true := by
  refine isFinite_ofUnits_of_le (m := limit - 1) ?_ (by decide)
  exact (Nat.mul_le_mul_right _ h).trans wholeUnits_le_units_greatest

theorem isFinite_ofNat {n : Nat} (h : n ≤ 2 ^ 1023) : (ofNat n).isFinite = true :=
  isFinite_ofUnits_wholeUnits false h

theorem isFinite_ofInt {i : Int} (h : i.natAbs ≤ 2 ^ 1023) : (ofInt i).isFinite = true :=
  isFinite_ofUnits_wholeUnits _ h

/-! ## Sums -/

theorem finite_add_finite (s t : Bool) (a b : Fin limit) : finite s a + finite t b =
    if signedUnits s a + signedUnits t b = 0 then ofMagnitude (s && t) 0
    else ofSum (signedUnits s a + signedUnits t b) := rfl

theorem inf_add_inf_self (s : Bool) : inf s + inf s = inf s := if_pos rfl

theorem inf_add_inf_not (s : Bool) : inf s + inf (!s) = nan := if_neg (by cases s <;> decide)

/-- Only opposite infinities have no sum. -/
theorem add_eq_nan_iff {x y : Binary64} (hx : x ≠ nan) (hy : y ≠ nan) :
    x + y = nan ↔ ∃ s, x = inf s ∧ y = inf !s := by
  constructor
  · intro h
    cases x with
    | nan => exact absurd rfl hx
    | inf s =>
        cases y with
        | nan => exact absurd rfl hy
        | inf t =>
            have hne : t ≠ s := by
              rintro rfl
              rw [inf_add_inf_self] at h
              cases h
            exact ⟨s, rfl, congrArg inf (Bool.eq_not.mpr hne)⟩
        | finite t b => cases h
    | finite s a =>
        cases y with
        | nan => exact absurd rfl hy
        | inf t => cases h
        | finite t b => exact absurd h (add_ne_nan rfl rfl)
  · rintro ⟨s, rfl, rfl⟩
    exact inf_add_inf_not s

/-- The number is neither `nan` nor below zero. -/
structure IsNonneg (x : Binary64) : Prop where
  ne_nan : x ≠ nan
  not_below : x.isBelowZero = false

theorem IsNonneg.ne_inf_true {x : Binary64} (h : x.IsNonneg) : x ≠ inf true := by
  rintro rfl
  cases h.not_below

theorem IsNonneg.signedUnits_nonneg {s : Bool} {m : Fin limit} (h : (finite s m).IsNonneg) :
    0 ≤ signedUnits s m := by
  unfold signedUnits
  cases s with
  | false => exact Int.natCast_nonneg _
  | true =>
      have hzero : m.val = 0 := by
        have hbelow := h.not_below
        simpa [isBelowZero] using hbelow
      rw [hzero]
      decide

theorem natAbs_signedUnits (s : Bool) (m : Nat) : (signedUnits s m).natAbs = units m := by
  unfold signedUnits
  split
  · exact (Int.natAbs_neg _).trans (Int.natAbs_natCast _)
  · exact Int.natAbs_natCast _

/-- A finite sum is rounded to minus infinity only if it is less than every
finite number, which it is not if a term is not below zero. -/
theorem finite_add_ne_inf_true {s t : Bool} {a b : Fin limit} (h : (finite t b).IsNonneg) :
    finite s a + finite t b ≠ inf true := by
  have hb := h.signedUnits_nonneg
  rw [finite_add_finite]
  split
  · unfold ofMagnitude
    rw [dif_pos (by decide)]
    exact Binary64.noConfusion
  · next hsum =>
    unfold ofSum
    by_cases hneg : signedUnits s a + signedUnits t b < 0
    · have hle : (signedUnits s a + signedUnits t b).natAbs ≤ units a := by
        have ha := natAbs_signedUnits s a
        omega
      intro heq
      have hfinite := isFinite_ofUnits_of_le (s := true) hle a.isLt
      rw [decide_eq_true hneg] at heq
      rw [heq] at hfinite
      cases hfinite
    · rw [decide_eq_false hneg]
      unfold ofUnits ofMagnitude
      split
      · exact Binary64.noConfusion
      · intro heq
        cases heq

theorem add_eq_inf_true_iff {x y : Binary64} (hx : x ≠ nan) (hy : y.IsNonneg) :
    x + y = inf true ↔ x = inf true ∧ y ≠ inf false := by
  cases x with
  | nan => exact absurd rfl hx
  | inf s =>
      cases y with
      | nan => exact absurd rfl hy.ne_nan
      | inf t =>
          cases t with
          | true => exact absurd rfl hy.ne_inf_true
          | false => cases s <;> decide
      | finite t b =>
          rw [show inf s + finite t b = inf s from rfl]
          exact ⟨fun h => ⟨h, Binary64.noConfusion⟩, And.left⟩
  | finite s a =>
      refine iff_of_false ?_ fun h => Binary64.noConfusion h.1
      cases y with
      | nan => exact absurd rfl hy.ne_nan
      | inf t =>
          rw [show finite s a + inf t = inf t from rfl]
          exact hy.ne_inf_true
      | finite t b => exact finite_add_ne_inf_true hy

/-! ## Products -/

theorem finite_mul_finite (s t : Bool) (a b : Fin limit) :
    finite s a * finite t b = ofUnits (s != t) (units a * units b) unitsOfOne := by
  change Binary64.mul _ _ = _
  simp only [Binary64.mul]

theorem mul_ne_nan {x y : Binary64} (hx : x.isFinite = true) (hy : y.isFinite = true) :
    x * y ≠ nan := by
  cases x <;> cases y <;> simp_all only [isFinite, Bool.false_eq_true]
  rw [finite_mul_finite]
  exact ofUnits_ne_nan _ _ _

/-- A finite number that is not below zero and has the negative sign is
zero. -/
theorem magnitude_eq_zero {m : Fin limit} (h : (finite true m).isBelowZero = false) :
    units m = 0 := by
  have hzero : m.val = 0 := by simpa [isBelowZero] using h
  rw [hzero]
  rfl

/-- Of two factors that are not below zero only a zero has the negative sign,
so a product with that sign is zero as well. -/
theorem IsNonneg.mul {x y : Binary64} (hx : x.isFinite = true) (hy : y.isFinite = true)
    (hxn : x.isBelowZero = false) (hyn : y.isBelowZero = false) : (x * y).IsNonneg := by
  refine ⟨mul_ne_nan hx hy, ?_⟩
  cases x <;> cases y <;> simp_all only [isFinite, Bool.false_eq_true]
  next s a t b =>
    rw [finite_mul_finite]
    have hzero : (s != t) = true → units a * units b = 0 := by
      intro hsign
      cases s with
      | true => rw [magnitude_eq_zero hxn, Nat.zero_mul]
      | false =>
          cases t with
          | true => rw [magnitude_eq_zero hyn, Nat.mul_zero]
          | false => cases hsign
    cases hsign : s != t with
    | false =>
        unfold ofUnits ofMagnitude
        split <;> rfl
    | true =>
        rw [hzero hsign, ofUnits, nearest_zero]
        rfl

end Binary64

end LinkParse
