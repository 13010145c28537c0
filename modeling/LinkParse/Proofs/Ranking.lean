import LinkParse.Ranking
import Mathlib.Data.List.Basic

/-!
# The order of candidates

For all options the order of candidates is a total one that takes no two
candidates for equal (`Candidate.eq_of_order_eq`). It is a chain of
comparisons, so it is transitive as each of them is, and equality must be
found by all of them. The three comparisons that options switch off come
back at the end of the chain, so every field is looked at.

It follows that the candidates have one ascending arrangement
(`Candidate.eq_rank`), so a ranking does not depend on the order in which
they came (`Candidate.rank_of_perm`).
-/

namespace LinkParse

/-! ## Numbers by their encoding -/

namespace Binary64

theorem nan_lt_topBit : limit + binade / 2 < topBit := by decide

theorem limit_lt_nan : limit < limit + binade / 2 := by decide

/-- An encoding is taken apart into the sign and the bits below it. -/
theorem ofBits_signBit_add (negative : Bool) {m : Nat} (hm : m < topBit) :
    ofBits (signBit negative + m) = if m > limit then nan else ofMagnitude negative m := by
  unfold ofBits signBit
  cases negative with
  | false =>
      rw [if_neg Bool.false_ne_true, Nat.zero_add, Nat.mod_eq_of_lt hm, Nat.div_eq_of_lt hm]
      rfl
  | true =>
      have hpos : 0 < topBit := Nat.zero_lt_of_lt hm
      rw [if_pos rfl, Nat.add_mod_left, Nat.mod_eq_of_lt hm, Nat.add_div_left _ hpos,
        Nat.div_eq_of_lt hm]
      rfl

/-- Reading an encoding gives the number that was encoded. -/
theorem ofBits_bits (x : Binary64) : ofBits x.bits = x := by
  have hnan := nan_lt_topBit
  have hlimit := limit_lt_nan
  cases x with
  | nan =>
      have h := ofBits_signBit_add false hnan
      rw [if_pos hlimit, show signBit false = 0 from rfl, Nat.zero_add] at h
      exact h
  | inf negative =>
      rw [show (inf negative).bits = signBit negative + limit from rfl,
        ofBits_signBit_add negative (by omega), if_neg (by omega)]
      exact dif_neg (by omega)
  | finite negative m =>
      have hm := m.isLt
      rw [show (finite negative m).bits = signBit negative + m from rfl,
        ofBits_signBit_add negative (by omega), if_neg (by omega)]
      exact dif_pos hm

/-- The total order tells any two numbers apart. -/
theorem rank_inj {x y : Binary64} (h : x.rank = y.rank) : x = y := by
  have hbits : x.bits = y.bits := by
    unfold rank at h
    split at h
    · split at h
      · omega
      · omega
    · split at h
      · omega
      · omega
  rw [← ofBits_bits x, hbits, ofBits_bits]

end Binary64

theorem Cost.eq_of_rank_eq {a b : Cost} (h : a.value.rank = b.value.rank) : a = b := by
  obtain ⟨x, hx, hx'⟩ := a
  obtain ⟨y, hy, hy'⟩ := b
  obtain rfl : x = y := Binary64.rank_inj h
  rfl

namespace Candidate

/-! ## The order as a chain -/

/-- A comparison that decides only where a preference is on. -/
def compareIf (preference : Bool) (cmp : Candidate → Candidate → Ordering) (a b : Candidate) :
    Ordering :=
  preferring preference (cmp a b)

instance {preference : Bool} {cmp : Candidate → Candidate → Ordering} [Std.TransCmp cmp] :
    Std.TransCmp (compareIf preference cmp) := by
  cases preference with
  | false =>
      exact { eq_swap := rfl, isLE_trans := fun _ _ => rfl }
  | true => exact inferInstanceAs (Std.TransCmp cmp)

theorem order_eq_compareLex (o : Options) : order o =
    compareLex (compareIf (o.overBudget == .deprioritize) (compareOn (·.score.overBudget)))
      (compareLex (compareOn (·.score.cost.value.rank))
      (compareLex (compareIf o.preferFewerNulls (compareOn (·.score.nulls)))
      (compareLex (compareOn (·.score.disjunct.value.rank))
      (compareLex (compareIf o.shortLengthPreference (compareOn (·.score.span)))
      (compareLex (compareOn (·.index))
      (compareLex (compareOn (·.score.nulls))
      (compareLex (compareOn (·.score.span)) (compareOn (·.score.overBudget))))))))) := rfl

instance (o : Options) : Std.TransCmp (order o) := by
  rw [order_eq_compareLex]
  infer_instance

/-- Every field is compared without a condition, the last three at the end of
the chain. -/
theorem eq_of_order_eq {o : Options} {a b : Candidate} (h : order o a b = .eq) : a = b := by
  rw [order_eq_compareLex] at h
  simp only [compareLex_eq_eq, compareOn, Std.compare_eq_iff_eq] at h
  obtain ⟨-, hcost, -, hdisjunct, -, hindex, hnulls, hspan, hbudget⟩ := h
  obtain ⟨i, s⟩ := a
  obtain ⟨j, t⟩ := b
  obtain ⟨cost, budget, nulls, disjunct, span⟩ := s
  obtain ⟨cost', budget', nulls', disjunct', span'⟩ := t
  obtain rfl : cost = cost' := Cost.eq_of_rank_eq hcost
  obtain rfl : disjunct = disjunct' := Cost.eq_of_rank_eq hdisjunct
  obtain rfl : i = j := hindex
  obtain rfl : nulls = nulls' := hnulls
  obtain rfl : span = span' := hspan
  obtain rfl : budget = budget' := hbudget
  rfl

instance (o : Options) : Std.LawfulEqCmp (order o) where
  eq_of_compare := eq_of_order_eq

theorem isLE_total (o : Options) (a b : Candidate) :
    (order o a b).isLE = true ∨ (order o b a).isLE = true := by
  have hswap : order o b a = (order o a b).swap := Std.OrientedCmp.eq_swap
  rw [hswap]
  cases order o a b with
  | lt => exact Or.inl rfl
  | eq => exact Or.inl rfl
  | gt => exact Or.inr rfl

/-! ## Rankings -/

/-- The candidates that the policy leaves in a ranking. -/
def admitted (o : Options) (cs : List Candidate) : List Candidate :=
  if o.overBudget = .discard then cs.filter (!·.score.overBudget) else cs

theorem rank_perm (o : Options) (cs : List Candidate) : (rank o cs).Perm (admitted o cs) :=
  Sorting.sort_perm ..

theorem pairwise_rank (o : Options) (cs : List Candidate) :
    (rank o cs).Pairwise fun a b => (order o a b).isLE = true :=
  Sorting.pairwise_sort (fun _ _ _ => Std.TransCmp.isLE_trans) (isLE_total o) _

theorem admitted_perm {o : Options} {cs ds : List Candidate} (h : cs.Perm ds) :
    (admitted o cs).Perm (admitted o ds) := by
  unfold admitted
  split
  · exact h.filter _
  · exact h

/-- An ascending arrangement of what the policy leaves is the ranking. -/
theorem eq_rank {o : Options} {cs ds : List Candidate} (hperm : ds.Perm (admitted o cs))
    (hds : ds.Pairwise fun a b => (order o a b).isLE = true) : ds = rank o cs :=
  List.Perm.eq_of_pairwise
    (fun _ _ _ _ hab hba => eq_of_order_eq (Std.OrientedCmp.isLE_antisymm hab hba)) hds
    (pairwise_rank o cs) (hperm.trans (rank_perm o cs).symm)

/-- The ranking is a function of the candidates, whatever their order. -/
theorem rank_of_perm {o : Options} {cs ds : List Candidate} (h : cs.Perm ds) :
    rank o cs = rank o ds :=
  eq_rank ((rank_perm o cs).trans (admitted_perm h)) (pairwise_rank o cs)

/-- The order of candidates is total and tells all candidates apart, so the
candidates that the policy leaves have one ascending arrangement, which is
their ranking. -/
theorem rank_canonical (o : Options) :
    (∀ a b, order o b a = (order o a b).swap) ∧
    (∀ a b c, (order o a b).isLE = true → (order o b c).isLE = true →
      (order o a c).isLE = true) ∧
    (∀ a b, order o a b = .eq ↔ a = b) ∧
    (∀ cs, (rank o cs).Perm (admitted o cs) ∧
      (rank o cs).Pairwise fun a b => (order o a b).isLE = true) ∧
    ∀ cs ds, cs.Perm ds → rank o cs = rank o ds := by
  refine ⟨fun a b => Std.OrientedCmp.eq_swap, fun a b c => Std.TransCmp.isLE_trans, ?_, ?_, ?_⟩
  · intro a b
    exact Std.LawfulEqCmp.compare_eq_iff_eq
  · intro cs
    exact ⟨rank_perm o cs, pairwise_rank o cs⟩
  · intro cs ds h
    exact rank_of_perm h

/-- Two candidates under one index that differ in nothing but a span that is
not preferred, and one over the budget. -/
theorem rank_canonical_repeated_index : ∃ a b c : Candidate, a.index = b.index ∧
    order {} a b = .lt ∧ order {} b c = .lt ∧ (order {} a c).isLE = true ∧
    [c, a, b, a].Perm [a, b, a, c] ∧ rank {} [c, a, b, a] = rank {} [a, b, a, c] := by
  obtain ⟨-, htrans, -, -, hrank⟩ := rank_canonical {}
  have hab : order {} ⟨0, ⟨.zero, false, 0, .zero, 1⟩⟩ ⟨0, ⟨.zero, false, 0, .zero, 2⟩⟩ = .lt := by
    decide +kernel
  have hbc : order {} ⟨0, ⟨.zero, false, 0, .zero, 2⟩⟩
      ⟨1, ⟨.greatest, true, 0, .zero, 1⟩⟩ = .lt := by
    decide +kernel
  have hac := htrans _ _ _ (congrArg Ordering.isLE hab) (congrArg Ordering.isLE hbc)
  have hperm : ∀ a b c : Candidate, [c, a, b, a].Perm [a, b, a, c] := by
    intro a b c
    show ([c] ++ [a, b, a]).Perm ([a, b, a] ++ [c])
    exact List.perm_append_comm
  refine ⟨_, _, _, ?_, hab, hbc, hac, hperm .., hrank _ _ (hperm ..)⟩
  rfl

end Candidate

end LinkParse
