import LinkParse.Sample
import LinkParse.Proofs.Budget
import LinkParse.Proofs.Score
import LinkParse.Proofs.Value

/-!
# Costs under heavier weights

Where the disjunct cost is not below zero, no weight takes a linkage's cost
down when it grows (`Linkage.score_monotone`). Numbers that are not below
zero are ordered as their sizes (`le_iff_size_le`), and the size of a
product or of a sum is found from the sizes by rounding, which is monotone;
what overflows has the size of infinity. The weighted cost then keeps the
order (`Linkage.weightedCost_le`), and so does the cost that it is brought to
by clamping, and what is over the budget stays over it.

With all else the same a higher budget, or none, holds every cost that the
lower one does, since both are clamped in the same way.
-/

namespace LinkParse

namespace Binary64

/-! ## Sizes -/

/-- The magnitude; that of infinity is the limit of all others. -/
def size : Binary64 → Nat
  | nan => 0
  | inf _ => limit
  | finite _ m => m

theorem size_ofMagnitude (s : Bool) (m : Nat) : (ofMagnitude s m).size = min limit m := by
  unfold ofMagnitude
  split
  · next h => exact (Nat.min_eq_right (Nat.le_of_lt h)).symm
  · next h => exact (Nat.min_eq_left (Nat.not_lt.mp h)).symm

theorem IsNonneg.signedUnits_eq {s : Bool} {m : Fin limit} (h : (finite s m).IsNonneg) :
    signedUnits s m = units m := by
  have hnonneg := h.signedUnits_nonneg
  have habs := natAbs_signedUnits s m
  omega

/-- Numbers that are not below zero are ordered as their sizes. -/
theorem le_iff_size_le {x y : Binary64} (hx : x.IsNonneg) (hy : y.IsNonneg) :
    x ≤ y ↔ x.size ≤ y.size := by
  cases x with
  | nan => exact absurd rfl hx.ne_nan
  | inf s =>
      obtain rfl : s = false := hx.not_below
      cases y with
      | nan => exact absurd rfl hy.ne_nan
      | inf t =>
          obtain rfl : t = false := hy.not_below
          exact iff_of_true (Or.inr rfl) (Nat.le_refl _)
      | finite t b => exact iff_of_false Bool.false_ne_true (Nat.not_le.mpr b.isLt)
  | finite s a =>
      cases y with
      | nan => exact absurd rfl hy.ne_nan
      | inf t =>
          obtain rfl : t = false := hy.not_below
          exact iff_of_true rfl a.isLt.le
      | finite t b =>
          change signedUnits s a ≤ signedUnits t b ↔ a.val ≤ b.val
          rw [hx.signedUnits_eq, hy.signedUnits_eq, Int.ofNat_le, units_le_units_iff]

/-! ## Products and sums -/

theorem size_mul {x y : Binary64} (hx : x.isFinite = true) (hy : y.isFinite = true) :
    (x * y).size = min limit (nearest (units x.size * units y.size) unitsOfOne) := by
  cases x with
  | nan => cases hx
  | inf s => cases hx
  | finite s a =>
      cases y with
      | nan => cases hy
      | inf t => cases hy
      | finite t b =>
          rw [finite_mul_finite]
          exact size_ofMagnitude _ _

theorem isNonneg_ofMagnitude_zero (s : Bool) : (ofMagnitude s 0).IsNonneg := by
  cases s with
  | false => exact ⟨by decide, by decide⟩
  | true => exact ⟨by decide, by decide⟩

theorem isNonneg_ofUnits_false (num den : Nat) : (ofUnits false num den).IsNonneg :=
  ⟨ofUnits_ne_nan _ _ _, isBelowZero_ofUnits_false _ _⟩

/-- The sum of finite numbers that are not below zero rounds the sum of their
units. -/
theorem IsNonneg.finite_add {s t : Bool} {a b : Fin limit} (ha : (finite s a).IsNonneg)
    (hb : (finite t b).IsNonneg) : (finite s a + finite t b).IsNonneg ∧
      (finite s a + finite t b).size = min limit (nearest (units a + units b) 1) := by
  have hsum : signedUnits s a + signedUnits t b = (units a + units b : Nat) := by
    rw [ha.signedUnits_eq, hb.signedUnits_eq, Int.natCast_add]
  rw [finite_add_finite, hsum]
  by_cases hzero : units a + units b = 0
  · rw [hzero, if_pos Int.natCast_zero, nearest_zero]
    exact ⟨isNonneg_ofMagnitude_zero _, size_ofMagnitude _ _⟩
  · rw [if_neg (mt Int.natCast_eq_zero.mp hzero), ofSum, decide_eq_false (by omega),
      Int.natAbs_natCast]
    exact ⟨isNonneg_ofUnits_false _ _, size_ofMagnitude _ _⟩

/-- Infinity swallows the other term, and so does rounding, since the sum has at
least its units. -/
theorem min_limit_nearest {n : Nat} (h : units limit ≤ n) : min limit (nearest n 1) = limit := by
  have hnearest : nearest (units limit) 1 ≤ nearest n 1 := nearest_mono h
  rw [nearest_units] at hnearest
  exact Nat.min_eq_left hnearest

theorem IsNonneg.add_and_size {x y : Binary64} (hx : x.IsNonneg) (hy : y.IsNonneg) :
    (x + y).IsNonneg ∧
      (x + y).size = min limit (nearest (units x.size + units y.size) 1) := by
  cases x with
  | nan => exact absurd rfl hx.ne_nan
  | inf s =>
      obtain rfl : s = false := hx.not_below
      have hadd : inf false + y = inf false := by
        cases y with
        | nan => exact absurd rfl hy.ne_nan
        | inf t =>
            obtain rfl : t = false := hy.not_below
            rfl
        | finite t b => rfl
      rw [hadd]
      exact ⟨hx, (min_limit_nearest (Nat.le_add_right _ _)).symm⟩
  | finite s a =>
      cases y with
      | nan => exact absurd rfl hy.ne_nan
      | inf t =>
          obtain rfl : t = false := hy.not_below
          rw [show finite s a + inf false = inf false from rfl]
          exact ⟨hy, (min_limit_nearest (Nat.le_add_left _ _)).symm⟩
      | finite t b => exact hx.finite_add hy

theorem IsNonneg.add {x y : Binary64} (hx : x.IsNonneg) (hy : y.IsNonneg) : (x + y).IsNonneg :=
  (hx.add_and_size hy).1

/-- Greater terms that are not below zero have a greater sum. -/
theorem IsNonneg.add_le_add {x x' y y' : Binary64} (hx : x.IsNonneg) (hx' : x'.IsNonneg)
    (hy : y.IsNonneg) (hy' : y'.IsNonneg) (hxx : x ≤ x') (hyy : y ≤ y') : x + y ≤ x' + y' := by
  rw [le_iff_size_le hx hx', ← units_le_units_iff] at hxx
  rw [le_iff_size_le hy hy', ← units_le_units_iff] at hyy
  rw [le_iff_size_le (hx.add hy) (hx'.add hy'), (hx.add_and_size hy).2, (hx'.add_and_size hy').2]
  exact min_le_min_left limit (nearest_mono (Nat.add_le_add hxx hyy))

end Binary64

/-! ## Costs -/

namespace Cost

theorem isLE_order_iff {a b : Cost} :
    (order a b).isLE = true ↔ a.value.heldUnits ≤ b.value.heldUnits := by
  unfold order Binary64.totalOrder
  rw [Int.isLE_compare, ← Int.not_lt, rank_lt_rank_iff, Int.not_lt]

theorem isWorseThan_iff_heldUnits {a b : Cost} :
    a.isWorseThan b = true ↔ b.value.heldUnits < a.value.heldUnits := by
  rw [isWorseThan_iff, rank_lt_rank_iff]

end Cost

/-! ## Options that ask for more -/

namespace Options

variable {o p : Options}

theorem isNonneg_of_isWeight {x : Binary64} (h : isWeight x = true) : x.IsNonneg := by
  obtain ⟨hfinite, hnonneg⟩ := isWeight_iff.mp h
  refine ⟨?_, hnonneg⟩
  rintro rfl
  cases hfinite

/-- A greater weight gives the greater product. -/
theorem weight_mul_le {x x' y : Binary64} (hx : isWeight x = true) (hx' : isWeight x' = true)
    (hy : y.isFinite = true) (hyn : y.isBelowZero = false) (h : x ≤ x') : x * y ≤ x' * y := by
  obtain ⟨hfinite, hnonneg⟩ := isWeight_iff.mp hx
  obtain ⟨hfinite', hnonneg'⟩ := isWeight_iff.mp hx'
  rw [Binary64.le_iff_size_le (isNonneg_of_isWeight hx) (isNonneg_of_isWeight hx'),
    ← Binary64.units_le_units_iff] at h
  rw [Binary64.le_iff_size_le (.mul hfinite hy hnonneg hyn) (.mul hfinite' hy hnonneg' hyn),
    Binary64.size_mul hfinite hy, Binary64.size_mul hfinite' hy]
  exact min_le_min_left _ (Binary64.nearest_mono (Nat.mul_le_mul_right _ h))

theorem weight_mul_ofNat_le {x x' : Binary64} {n : Nat} (hx : isWeight x = true)
    (hx' : isWeight x' = true) (hn : n ≤ 2 ^ 1023) (h : x ≤ x') :
    x * Binary64.ofNat n ≤ x' * Binary64.ofNat n :=
  weight_mul_le hx hx' (Binary64.isFinite_ofNat hn) (Binary64.isBelowZero_ofUnits_false _ _) h

/-- The second options differ from the first in the weights only, and no weight
is less. -/
structure IsLighter (o p : Options) : Prop where
  rest : p = { o with
    disjunctCostWeight := p.disjunctCostWeight
    nullWordPenalty := p.nullWordPenalty
    linkSpanWeight := p.linkSpanWeight }
  disjunctCostWeight : o.disjunctCostWeight ≤ p.disjunctCostWeight
  nullWordPenalty : o.nullWordPenalty ≤ p.nullWordPenalty
  linkSpanWeight : o.linkSpanWeight ≤ p.linkSpanWeight

/-- The second options differ from the first in the budget only, which is raised
or removed. -/
structure IsTighter (o p : Options) : Prop where
  rest : p = { o with maxCost := p.maxCost }
  maxCost : ∀ y, p.maxCost = some y → ∃ x, o.maxCost = some x ∧ x ≤ y

theorem IsLighter.fields_eq (h : o.IsLighter p) : p.maxCost = o.maxCost ∧
    p.shortLengthPreference = o.shortLengthPreference ∧ p.spanMeasure = o.spanMeasure := by
  rw [h.rest]
  exact ⟨rfl, rfl, rfl⟩

theorem IsTighter.weights_eq (h : o.IsTighter p) : p.weights = o.weights := by
  rw [h.rest]
  rfl

theorem IsTighter.usable (h : o.IsTighter p) (usable : o.fault? = none) : p.fault? = none := by
  rw [fault?_eq_none_iff] at usable ⊢
  refine ⟨h.weights_eq ▸ usable.1, fun hmax => ?_⟩
  obtain ⟨x, -, hle⟩ := h.maxCost _ hmax
  exact (Binary64.ne_nan_of_le hle).2 rfl

end Options

namespace Linkage

variable {k : Linkage} {o p : Options}

/-! ## Terms and sums -/

theorem disjunctTerm_le (ho : o.fault? = none) (hp : p.fault? = none) (h : o.IsLighter p)
    (hcost : k.cost.isBelowZero = false) : k.disjunctTerm o ≤ k.disjunctTerm p := by
  obtain ⟨hweight, -, -⟩ := Options.isWeight_of_usable ho
  obtain ⟨hweight', -, -⟩ := Options.isWeight_of_usable hp
  exact Options.weight_mul_le hweight hweight' k.cost_finite hcost h.disjunctCostWeight

theorem nullTerm_le (ho : o.fault? = none) (hp : p.fault? = none) (h : o.IsLighter p)
    (sized : k.IsSized) : k.nullTerm o ≤ k.nullTerm p := by
  obtain ⟨-, hweight, -⟩ := Options.isWeight_of_usable ho
  obtain ⟨-, hweight', -⟩ := Options.isWeight_of_usable hp
  exact Options.weight_mul_ofNat_le hweight hweight' sized.nullCount_le h.nullWordPenalty

theorem spanTerm_le (ho : o.fault? = none) (hp : p.fault? = none) (h : o.IsLighter p)
    (sized : k.IsSized) : k.spanTerm o ≤ k.spanTerm p := by
  obtain ⟨-, -, hweight⟩ := Options.isWeight_of_usable ho
  obtain ⟨-, -, hweight'⟩ := Options.isWeight_of_usable hp
  obtain ⟨-, hpreference, hmeasure⟩ := h.fields_eq
  unfold spanTerm
  rw [hpreference, hmeasure]
  split
  · exact Options.weight_mul_ofNat_le hweight hweight' (sized.span_le _) h.linkSpanWeight
  · exact Binary64.le_refl Binary64.isNonneg_zero.ne_nan

/-- No weight takes the weighted cost down when it grows. -/
theorem weightedCost_le (ho : o.fault? = none) (hp : p.fault? = none) (h : o.IsLighter p)
    (sized : k.IsSized) (hcost : k.cost.isBelowZero = false) :
    k.weightedCost o ≤ k.weightedCost p := by
  have hdisjunct := isNonneg_disjunctTerm (k := k) ho hcost
  have hdisjunct' := isNonneg_disjunctTerm (k := k) hp hcost
  have hnull := isNonneg_nullTerm ho sized
  have hnull' := isNonneg_nullTerm hp sized
  have hpartial : k.disjunctTerm o + k.nullTerm o ≤ k.disjunctTerm p + k.nullTerm p :=
    hdisjunct.add_le_add hdisjunct' hnull hnull' (disjunctTerm_le ho hp h hcost)
      (nullTerm_le ho hp h sized)
  rw [weightedCost_eq, weightedCost_eq]
  exact (hdisjunct.add hnull).add_le_add (hdisjunct'.add hnull') (isNonneg_spanTerm ho sized)
    (isNonneg_spanTerm hp sized) hpartial (spanTerm_le ho hp h sized)

/-! ## Scores -/

/-- A cost that is over a budget leaves every greater cost over it. -/
theorem overBudget_mono {budget : Option Cost} {c d : Cost}
    (h : c.value.heldUnits ≤ d.value.heldUnits) (hover : budget.any c.isWorseThan = true) :
    budget.any d.isWorseThan = true := by
  obtain ⟨b, hb, hworse⟩ := (Option.any_eq_true ..).mp hover
  rw [Cost.isWorseThan_iff_heldUnits] at hworse
  exact (Option.any_eq_true ..).mpr
    ⟨b, hb, Cost.isWorseThan_iff_heldUnits.mpr (Int.lt_of_lt_of_le hworse h)⟩

/-- A cost within the budget is within every raised one. -/
theorem overBudget_of_isTighter (h : o.IsTighter p) {budget : Option Cost}
    (hbudget : o.budget = .ok budget) :
    ∃ budget', p.budget = .ok budget' ∧ ∀ c : Cost, budget.any c.isWorseThan = false →
      budget'.any c.isWorseThan = false := by
  cases hp : p.maxCost with
  | none =>
      refine ⟨none, ?_, fun c _ => rfl⟩
      unfold Options.budget
      rw [hp]
  | some y =>
      obtain ⟨x, ho, hle⟩ := h.maxCost y hp
      obtain ⟨hx, hy⟩ := Binary64.ne_nan_of_le hle
      rw [Options.budget_eq ho hx] at hbudget
      cases hbudget
      refine ⟨_, Options.budget_eq hp hy, fun c hwithin => ?_⟩
      rw [Option.any_some, ← Bool.not_eq_true, Cost.isWorseThan_iff_heldUnits,
        Cost.heldUnits_clamp] at hwithin ⊢
      exact fun hover => hwithin (Int.lt_of_le_of_lt (Binary64.heldUnits_mono hle) hover)

/-- A linkage with a disjunct cost that is not below zero has a score under all
usable options, and heavier weights leave it its counts, do not lower its cost
and do not bring it back into the budget. For every linkage with a score, a
budget that is raised or removed changes nothing but whether it is over the
budget, and never takes it over. -/
theorem score_monotone :
    (∀ (k : Linkage) (o p : Options), k.IsSized → k.cost.isBelowZero = false →
      o.fault? = none → p.fault? = none → o.IsLighter p →
      ∃ s t, k.score o = .ok s ∧ k.score p = .ok t ∧ (Cost.order s.cost t.cost).isLE = true ∧
        t.nulls = s.nulls ∧ t.disjunct = s.disjunct ∧ t.span = s.span ∧
        (s.overBudget = true → t.overBudget = true)) ∧
    (∀ (k : Linkage) (o p : Options) (s : Score), k.score o = .ok s → o.IsTighter p →
      ∃ t, k.score p = .ok t ∧ t = { s with overBudget := t.overBudget } ∧
        (s.overBudget = false → t.overBudget = false)) := by
  constructor
  · intro k o p sized hcost ho hp h
    obtain ⟨s, hs⟩ := score_eq_ok ho sized (not_termsClash_of_nonneg ho hcost)
    obtain ⟨t, ht⟩ := score_eq_ok hp sized (not_termsClash_of_nonneg hp hcost)
    refine ⟨s, t, hs, ht, ?_⟩
    obtain ⟨-, hnan, budget, hbudget, rfl⟩ := score_eq_ok_iff.mp hs
    obtain ⟨-, hnan', budget', hbudget', rfl⟩ := score_eq_ok_iff.mp ht
    obtain ⟨hmax, -, hmeasure⟩ := h.fields_eq
    have hcosts : (Cost.clamp _ hnan).value.heldUnits ≤ (Cost.clamp _ hnan').value.heldUnits := by
      rw [Cost.heldUnits_clamp, Cost.heldUnits_clamp]
      exact Binary64.heldUnits_mono (weightedCost_le ho hp h sized hcost)
    have hsame : budget = budget' := by
      unfold Options.budget at hbudget hbudget'
      rw [hmax, hbudget] at hbudget'
      exact Except.ok.inj hbudget'
    refine ⟨Cost.isLE_order_iff.mpr hcosts, rfl, rfl, ?_, fun hover => ?_⟩
    · dsimp only
      rw [hmeasure]
    · rw [← hsame]
      exact overBudget_mono hcosts hover
  · intro k o p s hs h
    obtain ⟨usable, hnan, budget, hbudget, rfl⟩ := score_eq_ok_iff.mp hs
    obtain ⟨budget', hbudget', hwithin⟩ := overBudget_of_isTighter h hbudget
    obtain ⟨m, rfl⟩ : ∃ m, p = { o with maxCost := m } := ⟨p.maxCost, h.rest⟩
    -- neither the weighted cost nor the span looks at the budget
    have hscore := score_eq_ok_iff.mpr ⟨h.usable usable, hnan, budget', hbudget', rfl⟩
    exact ⟨_, hscore, rfl, hwithin _⟩

end Linkage

/-! ## Weights that overflow -/

namespace Sample

/-- Four words, one of them null, at a disjunct cost of 2. -/
def withNullWord : Linkage := subjectObject.linkage.toOption.get (by decide +kernel)

/-- Short links are preferred, and a cost of 3 is allowed. -/
def lowBudget : Options where
  maxCost := some (.ofNat 3)
  shortLengthPreference := true

theorem isSized_withNullWord : withNullWord.IsSized := ⟨by decide +kernel, by decide +kernel⟩

end Sample

/-- The weighted cost of 6 grows to infinity with the weights and is over the
budget of 3; an infinite budget does not change the cost. -/
theorem Linkage.score_monotone_overflow : ∃ s t u,
    Sample.withNullWord.score Sample.lowBudget = .ok s ∧
    Sample.withNullWord.score { Sample.lowBudget with disjunctCostWeight := .greatest false }
      = .ok t ∧
    Sample.withNullWord.score { Sample.lowBudget with maxCost := some (.inf false) } = .ok u ∧
    (Cost.order s.cost t.cost).isLE = true ∧ (s.overBudget = true → t.overBudget = true) ∧
    u.cost = s.cost := by
  obtain ⟨hweights, hbudget⟩ := Linkage.score_monotone
  obtain ⟨s, t, hs, ht, hcost, -, -, -, hover⟩ := hweights Sample.withNullWord Sample.lowBudget
    { Sample.lowBudget with disjunctCostWeight := .greatest false } Sample.isSized_withNullWord
    (by decide +kernel) (by decide +kernel) (by decide +kernel)
    ⟨rfl, by decide +kernel, by decide +kernel, by decide +kernel⟩
  obtain ⟨u, hu, hsame, -⟩ := hbudget Sample.withNullWord Sample.lowBudget
    { Sample.lowBudget with maxCost := some (.inf false) } s hs
    ⟨rfl, fun y hy => ⟨.ofNat 3, rfl, by cases hy; decide +kernel⟩⟩
  refine ⟨s, t, u, hs, ht, hu, hcost, hover, ?_⟩
  rw [hsame]

/-- The greater cost is at the end of the range. -/
example : (Sample.withNullWord.score
    { Sample.lowBudget with disjunctCostWeight := .greatest false }).toOption.map
      (fun s => (s.cost, s.overBudget)) = some (.greatest, true) := by
  decide +kernel

end LinkParse
