import LinkParse.Score
import LinkParse.Proofs.Rounding
import Mathlib.Algebra.Group.Action.Defs
import Mathlib.Algebra.Order.BigOperators.Group.List

/-!
# Which linkages have a score

Usable options leave one way for scoring to fail. Weights are finite and
not below zero, so the terms for null words and for spans are not below zero
either; only the disjunct term can be, and where it overflows to minus
infinity while one of the others overflows to infinity the weighted sum is
no number (`weightedCost_eq_nan_iff`). Everything else is kept within the
range of costs (`score_eq_ok`).

Words and links of a linkage in memory are counted by 64-bit numbers
(`IsSized`). The limit matters only for numbers so large that they would
have no finite neighbour in the format.
-/

namespace LinkParse

namespace Binary64

theorem isNonneg_zero : zero.IsNonneg := ⟨by decide, by decide⟩

theorem isBelowZero_ofUnits_false (num den : Nat) :
    (ofUnits false num den).isBelowZero = false := by
  unfold ofUnits ofMagnitude
  split <;> rfl

end Binary64

namespace Options

variable {o : Options}

theorem isWeight_iff {x : Binary64} :
    isWeight x = true ↔ x.isFinite = true ∧ x.isBelowZero = false := by
  rw [isWeight, Bool.and_eq_true, Bool.not_eq_true']

theorem fault?_eq_none_iff : o.fault? = none ↔
    (∀ field ∈ o.weights, isWeight field.2 = true) ∧ o.maxCost ≠ some .nan := by
  have hfind : (o.weights.find? fun field => !isWeight field.2) = none ↔
      ∀ field ∈ o.weights, isWeight field.2 = true := by
    simp only [List.find?_eq_none, Bool.not_eq_true', Bool.not_eq_false]
  unfold fault?
  split
  · next hfield =>
    refine iff_of_false (Option.some_ne_none _) fun h => ?_
    cases hfield.symm.trans (hfind.mpr h.1)
  · next hnone =>
    rw [and_iff_right (hfind.mp hnone)]
    split
    · next hmax => exact iff_of_false (Option.some_ne_none _) fun h => h hmax
    · next hmax => exact iff_of_true rfl hmax

theorem isWeight_of_usable (usable : o.fault? = none) : isWeight o.disjunctCostWeight = true ∧
    isWeight o.nullWordPenalty = true ∧ isWeight o.linkSpanWeight = true := by
  obtain ⟨hweights, -⟩ := fault?_eq_none_iff.mp usable
  simpa [weights] using hweights

theorem budget_eq {x : Binary64} (h : o.maxCost = some x) (hnan : x ≠ .nan) :
    o.budget = .ok (some (Cost.clamp x hnan)) := by
  unfold budget
  rw [h]
  simp only [Cost.saturating, dif_neg hnan]
  rfl

theorem budget_of_usable (usable : o.fault? = none) : ∃ budget, o.budget = .ok budget := by
  obtain ⟨-, hmax⟩ := fault?_eq_none_iff.mp usable
  cases h : o.maxCost with
  | none =>
      refine ⟨none, ?_⟩
      unfold budget
      rw [h]
  | some x => exact ⟨_, budget_eq h fun hnan => hmax (hnan ▸ h)⟩

/-- A weight times a count is not below zero. -/
theorem isNonneg_weight_mul {x : Binary64} {n : Nat} (hx : isWeight x = true) (hn : n ≤ 2 ^ 1023) :
    (x * Binary64.ofNat n).IsNonneg := by
  obtain ⟨hfinite, hnonneg⟩ := isWeight_iff.mp hx
  exact .mul hfinite (Binary64.isFinite_ofNat hn) hnonneg
    (Binary64.isBelowZero_ofUnits_false _ _)

end Options

namespace Linkage

variable {k : Linkage} {o : Options}

/-! ## Counts -/

/-- Words and links are counted by 64-bit numbers. The total span is not: it
may be `2 ^ 64` or more, where `totalSpan` goes on and a 64-bit sum would
overflow. -/
structure IsSized (k : Linkage) : Prop where
  words_lt : k.words < 2 ^ 64
  size_lt : k.size < 2 ^ 64

theorem length_flags : ∀ (links : List Link) (flags : List Bool),
    (links.foldl (fun flags l => (flags.set l.left true).set l.right true) flags).length
      = flags.length
  | [], _ => rfl
  | l :: links, flags => by
      rw [List.foldl_cons, length_flags links, List.length_set, List.length_set]

theorem length_linkedFlags (k : Linkage) : k.linkedFlags.length = k.words :=
  (length_flags k.links _).trans List.length_replicate

theorem nullCount_le_words (k : Linkage) : k.nullCount ≤ k.words :=
  (List.count_le_length).trans_eq k.length_linkedFlags

theorem span_le_words {l : Link} (hl : l ∈ k.links) : l.span ≤ k.words :=
  (Nat.sub_le _ _).trans (k.right_lt_words l hl).le

theorem totalSpan_le (k : Linkage) : k.totalSpan ≤ k.size * k.words := by
  have hsum : k.totalSpan = (k.links.map Link.span).sum := List.sum_eq_foldl.symm
  have hcard := List.sum_le_card_nsmul (k.links.map Link.span) k.words fun s hs => by
    obtain ⟨l, hl, rfl⟩ := List.mem_map.mp hs
    exact span_le_words hl
  rwa [List.length_map, smul_eq_mul, ← hsum] at hcard

theorem foldl_max_le {bound : Nat} : ∀ {spans : List Nat} {greatest : Nat}, greatest ≤ bound →
    (∀ s ∈ spans, s ≤ bound) → spans.foldl max greatest ≤ bound
  | [], _, hle, _ => hle
  | s :: spans, _, hle, hspans => by
      rw [List.forall_mem_cons] at hspans
      rw [List.foldl_cons]
      exact foldl_max_le (Nat.max_le.mpr ⟨hle, hspans.1⟩) hspans.2

theorem maxSpan_le_words (k : Linkage) : k.maxSpan ≤ k.words := by
  refine foldl_max_le (Nat.zero_le _) fun s hs => ?_
  obtain ⟨l, hl, rfl⟩ := List.mem_map.mp hs
  exact span_le_words hl

theorem IsSized.nullCount_le (sized : k.IsSized) : k.nullCount ≤ 2 ^ 1023 :=
  k.nullCount_le_words.trans (sized.words_lt.le.trans (by decide +kernel))

theorem IsSized.span_le (sized : k.IsSized) (measure : SpanMeasure) :
    k.span measure ≤ 2 ^ 1023 := by
  cases measure with
  | sum =>
      calc k.totalSpan ≤ k.size * k.words := k.totalSpan_le
        _ ≤ 2 ^ 64 * 2 ^ 64 := Nat.mul_le_mul sized.size_lt.le sized.words_lt.le
        _ ≤ 2 ^ 1023 := by decide +kernel
  | max => exact k.maxSpan_le_words.trans (sized.words_lt.le.trans (by decide +kernel))

/-! ## The terms of the cost -/

def disjunctTerm (k : Linkage) (o : Options) : Binary64 := o.disjunctCostWeight * k.cost

def nullTerm (k : Linkage) (o : Options) : Binary64 :=
  o.nullWordPenalty * Binary64.ofNat k.nullCount

def spanTerm (k : Linkage) (o : Options) : Binary64 :=
  if o.shortLengthPreference then o.linkSpanWeight * Binary64.ofNat (k.span o.spanMeasure)
  else .zero

theorem weightedCost_eq (k : Linkage) (o : Options) :
    k.weightedCost o = k.disjunctTerm o + k.nullTerm o + k.spanTerm o := rfl

theorem disjunctTerm_ne_nan (usable : o.fault? = none) : k.disjunctTerm o ≠ .nan := by
  obtain ⟨hweight, -, -⟩ := Options.isWeight_of_usable usable
  exact Binary64.mul_ne_nan (Options.isWeight_iff.mp hweight).1 k.cost_finite

theorem isNonneg_disjunctTerm (usable : o.fault? = none) (hcost : k.cost.isBelowZero = false) :
    (k.disjunctTerm o).IsNonneg := by
  obtain ⟨hweight, -, -⟩ := Options.isWeight_of_usable usable
  obtain ⟨hfinite, hnonneg⟩ := Options.isWeight_iff.mp hweight
  exact .mul hfinite k.cost_finite hnonneg hcost

theorem isNonneg_nullTerm (usable : o.fault? = none) (sized : k.IsSized) :
    (k.nullTerm o).IsNonneg := by
  obtain ⟨-, hweight, -⟩ := Options.isWeight_of_usable usable
  exact Options.isNonneg_weight_mul hweight sized.nullCount_le

theorem isNonneg_spanTerm (usable : o.fault? = none) (sized : k.IsSized) :
    (k.spanTerm o).IsNonneg := by
  obtain ⟨-, -, hweight⟩ := Options.isWeight_of_usable usable
  unfold spanTerm
  split
  · exact Options.isNonneg_weight_mul hweight (sized.span_le _)
  · exact Binary64.isNonneg_zero

/-- The disjunct term is minus infinity, and another term is infinity. -/
def TermsClash (k : Linkage) (o : Options) : Prop :=
  k.disjunctTerm o = .inf true ∧ (k.nullTerm o = .inf false ∨ k.spanTerm o = .inf false)

instance (k : Linkage) (o : Options) : Decidable (k.TermsClash o) :=
  inferInstanceAs (Decidable (_ ∧ _))

theorem weightedCost_eq_nan_iff (usable : o.fault? = none) (sized : k.IsSized) :
    k.weightedCost o = .nan ↔ k.TermsClash o := by
  have hdisjunct := disjunctTerm_ne_nan (k := k) usable
  have hnull := isNonneg_nullTerm usable sized
  have hspan := isNonneg_spanTerm usable sized
  have hopposite : ∀ {x y : Binary64}, x ≠ .nan → y.IsNonneg →
      (x + y = .nan ↔ x = .inf true ∧ y = .inf false) := by
    intro x y hx hy
    rw [Binary64.add_eq_nan_iff hx hy.ne_nan]
    constructor
    · rintro ⟨s, rfl, rfl⟩
      cases s with
      | true => exact ⟨rfl, rfl⟩
      | false => exact absurd rfl hy.ne_inf_true
    · rintro ⟨rfl, rfl⟩
      exact ⟨true, rfl, rfl⟩
  rw [weightedCost_eq, TermsClash]
  by_cases hsum : k.disjunctTerm o + k.nullTerm o = .nan
  · rw [hsum]
    have hclash := (hopposite hdisjunct hnull).mp hsum
    exact iff_of_true rfl ⟨hclash.1, .inl hclash.2⟩
  · -- the sum of the first two terms is minus infinity if the disjunct term is
    rw [hopposite hsum hspan, Binary64.add_eq_inf_true_iff hdisjunct hnull]
    have hno := mt (hopposite hdisjunct hnull).mpr hsum
    tauto

/-- A disjunct cost that is not below zero brings the cost no infinity below
zero. -/
theorem not_termsClash_of_nonneg (usable : o.fault? = none) (hcost : k.cost.isBelowZero = false) :
    ¬ k.TermsClash o := by
  intro hclash
  exact (isNonneg_disjunctTerm usable hcost).ne_inf_true hclash.1

/-! ## Scores -/

/-- The score of a linkage, field by field. -/
theorem score_eq_ok_iff {s : Score} : k.score o = .ok s ↔ o.fault? = none ∧
    ∃ (hnan : k.weightedCost o ≠ .nan) (budget : Option Cost), o.budget = .ok budget ∧
      s = {
        cost := Cost.clamp (k.weightedCost o) hnan
        overBudget := budget.any (Cost.clamp (k.weightedCost o) hnan).isWorseThan
        nulls := k.nullCount
        disjunct := Cost.ofFinite k.cost k.cost_finite
        span := k.span o.spanMeasure } := by
  unfold score
  cases o.fault? with
  | some fault => simp
  | none =>
      by_cases hnan : k.weightedCost o = .nan
      · simp only [Cost.saturating, dif_pos hnan]
        refine iff_of_false (fun h => by cases h) fun h => ?_
        obtain ⟨-, hne, -⟩ := h
        exact hne hnan
      · simp only [Cost.saturating, dif_neg hnan]
        cases o.budget with
        | error fault =>
            refine iff_of_false (fun h => by cases h) fun h => ?_
            obtain ⟨-, -, budget, hbudget, -⟩ := h
            cases hbudget
        | ok budget =>
            constructor
            · intro h
              cases h
              exact ⟨trivial, hnan, budget, rfl, rfl⟩
            · rintro ⟨-, -, budget, hbudget, rfl⟩
              cases hbudget
              rfl

theorem score_eq_ok (usable : o.fault? = none) (sized : k.IsSized) (hclash : ¬ k.TermsClash o) :
    ∃ s, k.score o = .ok s := by
  have hnan := mt (weightedCost_eq_nan_iff usable sized).mp hclash
  obtain ⟨budget, hbudget⟩ := Options.budget_of_usable usable
  exact ⟨_, score_eq_ok_iff.mpr ⟨usable, hnan, budget, hbudget, rfl⟩⟩

theorem score_eq_error (usable : o.fault? = none) (sized : k.IsSized) (hclash : k.TermsClash o) :
    k.score o = .error (.cost .notANumber) := by
  have hnan := (weightedCost_eq_nan_iff usable sized).mpr hclash
  unfold score
  rw [usable]
  simp only [Cost.saturating, dif_pos hnan]
  rfl

theorem score_eq_error_iff (usable : o.fault? = none) (sized : k.IsSized) {fault : Score.Fault} :
    k.score o = .error fault ↔ fault = .cost .notANumber ∧ k.TermsClash o := by
  by_cases hclash : k.TermsClash o
  · rw [score_eq_error usable sized hclash, Except.error.injEq, eq_comm, and_iff_left hclash]
  · obtain ⟨s, hs⟩ := score_eq_ok usable sized hclash
    rw [hs]
    exact iff_of_false (by simp) fun h => hclash h.2

end Linkage

/-! ## A linkage without a score -/

namespace Sample

/-- Two words that no link touches, at a cost of -2 ^ 1023. -/
def farBelowZero : Linkage :=
  { Linkage.empty 2 with
    cost := .finite true ⟨2046 * Binary64.binade, by decide⟩
    cost_finite := rfl }

/-- Disjuncts count twice, and a null word costs 2 ^ 1023. -/
def heavyWeights : Options where
  disjunctCostWeight := .ofNat 2
  nullWordPenalty := .finite false ⟨2046 * Binary64.binade, by decide⟩

theorem usable_heavyWeights : heavyWeights.fault? = none := by decide +kernel

theorem isSized_farBelowZero : farBelowZero.IsSized := ⟨by decide, by decide⟩

theorem termsClash_farBelowZero : farBelowZero.TermsClash heavyWeights := by decide +kernel

end Sample

/-- Usable options and a finite cost do not make a score sure: twice -2 ^ 1023
is minus infinity, and the two null words cost infinity. -/
theorem Linkage.score_not_total :
    ¬ ∀ (o : Options) (k : Linkage), o.fault? = none → ∃ s, k.score o = .ok s := by
  intro hall
  obtain ⟨s, hs⟩ := hall Sample.heavyWeights Sample.farBelowZero Sample.usable_heavyWeights
  rw [Linkage.score_eq_error Sample.usable_heavyWeights Sample.isSized_farBelowZero
    Sample.termsClash_farBelowZero] at hs
  cases hs

end LinkParse
