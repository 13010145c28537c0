import LinkParse.Proofs.Lists
import LinkParse.Proofs.Ranking
import LinkParse.Proofs.Score

/-!
# Budgets in rankings

A score says whether its cost is over the budget, and the order of
candidates may look at this before it looks at the cost.

Whatever the scores say, a policy moves whole classes of candidates and no
candidate within its class: those within the budget and those over it are
ranked as they would be by themselves, and a policy puts the second ranking
behind the first, or drops it (`Candidate.rank_by_policy`).

On candidates that were scored by the same options the budget and the cost
agree: what is within the budget costs less than what is over it
(`rank_lt_of_overBudget`). So to deprioritize such candidates changes no
ranking, and to discard them takes the end off it (`Candidate.rank_scored`).
-/

namespace LinkParse

/-- A score is over the budget if its cost is worse than a budget that depends
on the options only. -/
theorem Linkage.overBudget_of_score {k : Linkage} {o : Options} {s : Score}
    (h : k.score o = .ok s) :
    ∃ budget, o.budget = .ok budget ∧ s.overBudget = budget.any s.cost.isWorseThan := by
  obtain ⟨-, -, budget, hbudget, rfl⟩ := score_eq_ok_iff.mp h
  exact ⟨budget, hbudget, rfl⟩

theorem Cost.isWorseThan_iff {a b : Cost} :
    a.isWorseThan b = true ↔ b.value.rank < a.value.rank := by
  unfold isWorseThan order Binary64.totalOrder
  rw [beq_iff_eq, Int.compare_eq_gt]

theorem Cost.isBetterThan_iff {a b : Cost} :
    a.isBetterThan b = true ↔ a.value.rank < b.value.rank := by
  unfold isBetterThan order Binary64.totalOrder
  rw [beq_iff_eq, Int.compare_eq_lt]

namespace Candidate

variable {o : Options} {a b : Candidate} {cs : List Candidate}

/-- The candidate has the score of some linkage by the options. -/
def IsScoredBy (o : Options) (c : Candidate) : Prop := ∃ k : Linkage, k.score o = .ok c.score

/-- What is within the budget costs less than what is over it. -/
theorem rank_lt_of_overBudget (ha : a.IsScoredBy o) (hb : b.IsScoredBy o)
    (hwithin : a.score.overBudget = false) (hover : b.score.overBudget = true) :
    a.score.cost.value.rank < b.score.cost.value.rank := by
  obtain ⟨k, hk⟩ := ha
  obtain ⟨m, hm⟩ := hb
  obtain ⟨budget, hbudget, ha⟩ := Linkage.overBudget_of_score hk
  obtain ⟨budget', hbudget', hb⟩ := Linkage.overBudget_of_score hm
  obtain rfl : budget = budget' := Except.ok.inj (hbudget.symm.trans hbudget')
  rw [hb, Option.any_eq_true] at hover
  obtain ⟨limit, rfl, hworse⟩ := hover
  rw [ha, Option.any_some, ← Bool.not_eq_true, Cost.isWorseThan_iff] at hwithin
  exact Int.lt_of_le_of_lt (Int.not_lt.mp hwithin) (Cost.isWorseThan_iff.mp hworse)

/-! ## Orders under each policy -/

/-- To deprioritize compares the budgets first, and then what is compared where
all candidates are kept. -/
theorem order_deprioritize (p : Options) (a b : Candidate) :
    order { p with overBudget := .deprioritize } a b
      = (compare a.score.overBudget b.score.overBudget).then
        (order { p with overBudget := .keep } a b) := rfl

theorem order_deprioritize_of_eq (h : a.score.overBudget = b.score.overBudget) (p : Options) :
    order { p with overBudget := .deprioritize } a b
      = order { p with overBudget := .keep } a b := by
  have hsame : compare a.score.overBudget b.score.overBudget = .eq :=
    Std.LawfulEqCmp.compare_eq_iff_eq.mpr h
  rw [order_deprioritize, hsame]
  rfl

/-- Where no budget is looked at, the lower cost comes first. -/
theorem order_keep_of_rank_lt (h : a.score.cost.value.rank < b.score.cost.value.rank)
    (p : Options) : order { p with overBudget := .keep } a b = .lt := by
  have hcost : Cost.order a.score.cost b.score.cost = .lt := Int.compare_eq_lt.mpr h
  unfold order
  simp only [hcost]
  rfl

theorem order_keep_swap_of_rank_lt (h : b.score.cost.value.rank < a.score.cost.value.rank)
    (p : Options) : order { p with overBudget := .keep } a b = .gt := by
  have hswap : order { p with overBudget := .keep } a b
      = (order { p with overBudget := .keep } b a).swap := Std.OrientedCmp.eq_swap
  rw [hswap, order_keep_of_rank_lt h]
  rfl

/-- The budget decides nothing that the cost would decide otherwise. -/
theorem order_deprioritize_eq_keep (ha : a.IsScoredBy o) (hb : b.IsScoredBy o) (p : Options) :
    order { p with overBudget := .deprioritize } a b
      = order { p with overBudget := .keep } a b := by
  rw [order_deprioritize]
  cases hover : a.score.overBudget with
  | false =>
      cases hover' : b.score.overBudget with
      | false => rfl
      | true =>
          rw [order_keep_of_rank_lt (rank_lt_of_overBudget ha hb hover hover')]
          rfl
  | true =>
      cases hover' : b.score.overBudget with
      | false =>
          rw [order_keep_swap_of_rank_lt (rank_lt_of_overBudget hb ha hover' hover)]
          rfl
      | true => rfl

/-! ## Rankings under each policy -/

/-- Some of the candidates, ranked by themselves, keep the order that they have
among all. -/
theorem rank_filter (o : Options) (f : Candidate → Bool) (cs : List Candidate) :
    rank o (cs.filter f) = (rank o cs).filter f := by
  have hadmitted : admitted o (cs.filter f) = (admitted o cs).filter f := by
    unfold admitted
    split
    · exact List.filter_comm ..
    · rfl
  have hperm : ((rank o cs).filter f).Perm (admitted o (cs.filter f)) :=
    hadmitted ▸ (rank_perm o cs).filter f
  exact (eq_rank hperm ((pairwise_rank o cs).filter f)).symm

/-- To discard candidates leaves the others in their places. -/
theorem rank_discard_eq_filter (p : Options) (cs : List Candidate) :
    rank { p with overBudget := .discard } cs
      = (rank { p with overBudget := .keep } cs).filter (!·.score.overBudget) := by
  have hperm := (rank_perm { p with overBudget := .keep } cs).filter (!·.score.overBudget)
  have hsorted := (pairwise_rank { p with overBudget := .keep } cs).filter (!·.score.overBudget)
  exact (eq_rank hperm hsorted).symm

theorem overBudget_of_mem_rank_discard {p : Options}
    (h : a ∈ rank { p with overBudget := .discard } cs) : a.score.overBudget = false := by
  rw [rank_discard_eq_filter, List.mem_filter, Bool.not_eq_true'] at h
  exact h.2

theorem overBudget_of_mem_rank_filter (h : a ∈ rank o (cs.filter (·.score.overBudget))) :
    a.score.overBudget = true := by
  rw [rank_filter, List.mem_filter] at h
  exact h.2

/-- Where all are within the budget, or all over it, to deprioritize changes no
order. -/
theorem pairwise_deprioritize {status : Bool} (hcs : ∀ c ∈ cs, c.score.overBudget = status)
    (p : Options)
    (hkeep : cs.Pairwise fun a b => (order { p with overBudget := .keep } a b).isLE = true) :
    cs.Pairwise fun a b => (order { p with overBudget := .deprioritize } a b).isLE = true := by
  refine hkeep.imp_of_mem fun {a b} ha hb hle => ?_
  have hsame : a.score.overBudget = b.score.overBudget := (hcs a ha).trans (hcs b hb).symm
  rw [order_deprioritize_of_eq hsame]
  exact hle

/-- To deprioritize candidates puts them, ranked by themselves, behind the
others. -/
theorem rank_deprioritize_eq_append (p : Options) (cs : List Candidate) :
    rank { p with overBudget := .deprioritize } cs
      = rank { p with overBudget := .discard } cs
        ++ rank { p with overBudget := .keep } (cs.filter (·.score.overBudget)) := by
  have hclasses : (cs.filter (·.score.overBudget) ++ cs.filter (!·.score.overBudget)).Perm cs :=
    List.filter_append_perm ..
  have hranked : (rank { p with overBudget := .discard } cs
      ++ rank { p with overBudget := .keep } (cs.filter (·.score.overBudget))).Perm
        (cs.filter (!·.score.overBudget) ++ cs.filter (·.score.overBudget)) :=
    (rank_perm _ cs).append (rank_perm _ _)
  have hperm := hranked.trans (List.perm_append_comm.trans hclasses)
  have hwithin := (pairwise_rank { p with overBudget := .keep } cs).filter (!·.score.overBudget)
  rw [← rank_discard_eq_filter] at hwithin
  refine (eq_rank hperm (List.pairwise_append.mpr ⟨?_, ?_, ?_⟩)).symm
  · exact pairwise_deprioritize (fun _ => overBudget_of_mem_rank_discard) p hwithin
  · exact pairwise_deprioritize (fun _ => overBudget_of_mem_rank_filter) p (pairwise_rank _ _)
  · intro a ha b hb
    rw [order_deprioritize, overBudget_of_mem_rank_discard ha, overBudget_of_mem_rank_filter hb]
    rfl

/-- What each policy makes of the ranking in which all candidates are kept,
whether or not their budgets agree with their costs. -/
theorem rank_by_policy (p : Options) (cs : List Candidate) :
    rank { p with overBudget := .discard } cs
      = (rank { p with overBudget := .keep } cs).filter (!·.score.overBudget) ∧
    rank { p with overBudget := .discard } cs
      = rank { p with overBudget := .keep } (cs.filter (!·.score.overBudget)) ∧
    rank { p with overBudget := .deprioritize } cs
      = rank { p with overBudget := .discard } cs
        ++ rank { p with overBudget := .keep } (cs.filter (·.score.overBudget)) := by
  have hdiscard := rank_discard_eq_filter p cs
  refine ⟨hdiscard, ?_, rank_deprioritize_eq_append p cs⟩
  rw [hdiscard, rank_filter]

/-- The first candidate costs less than the second, and is over the budget. -/
example : rank { overBudget := .deprioritize }
    [⟨0, ⟨.zero, true, 0, .zero, 0⟩⟩, ⟨1, ⟨.greatest, false, 0, .zero, 0⟩⟩]
      = [⟨1, ⟨.greatest, false, 0, .zero, 0⟩⟩, ⟨0, ⟨.zero, true, 0, .zero, 0⟩⟩] := by
  decide +kernel

/-! ## Rankings of scored linkages -/

theorem rank_deprioritize_eq_keep (hcs : ∀ c ∈ cs, c.IsScoredBy o) (p : Options) :
    rank { p with overBudget := .deprioritize } cs = rank { p with overBudget := .keep } cs := by
  have hperm := rank_perm { p with overBudget := .deprioritize } cs
  refine eq_rank hperm ((pairwise_rank _ cs).imp_of_mem fun {a b} ha hb hle => ?_)
  rwa [← order_deprioritize_eq_keep (hcs a (hperm.mem_iff.mp ha)) (hcs b (hperm.mem_iff.mp hb))]

theorem pairwise_rank_keep (p : Options) (cs : List Candidate) :
    (rank { p with overBudget := .keep } cs).Pairwise fun a b =>
      a.score.cost.value.rank ≤ b.score.cost.value.rank := by
  refine (pairwise_rank _ cs).imp fun {a b} hle => ?_
  by_contra hgt
  rw [order_keep_swap_of_rank_lt (Int.not_le.mp hgt)] at hle
  cases hle

theorem rank_discard_isPrefix (hcs : ∀ c ∈ cs, c.IsScoredBy o) (p : Options) :
    rank { p with overBudget := .discard } cs <+: rank { p with overBudget := .keep } cs := by
  have hperm := rank_perm { p with overBudget := .keep } cs
  rw [rank_discard_eq_filter]
  refine filter_isPrefix_of_pairwise
    ((pairwise_rank_keep p cs).imp_of_mem fun {a b} ha hb hle hwithin => ?_)
  rw [Bool.not_eq_true'] at hwithin ⊢
  by_contra hover
  have hlt := rank_lt_of_overBudget (hcs b (hperm.mem_iff.mp hb)) (hcs a (hperm.mem_iff.mp ha))
    hwithin (Bool.of_not_eq_false hover)
  exact Int.not_lt.mpr hle hlt

/-- Candidates that were scored by one set of options are ranked alike whether
those over the budget are kept or deprioritized. To discard these leaves the
front of that ranking. Under no policy a candidate is ahead of one with a
lower cost. -/
theorem rank_scored (hcs : ∀ c ∈ cs, c.IsScoredBy o) (p : Options) :
    rank { p with overBudget := .deprioritize } cs = rank { p with overBudget := .keep } cs ∧
    rank { p with overBudget := .discard } cs <+: rank { p with overBudget := .keep } cs ∧
    rank { p with overBudget := .discard } cs
      = (rank { p with overBudget := .keep } cs).filter (!·.score.overBudget) ∧
    ∀ policy, (rank { p with overBudget := policy } cs).Pairwise fun a b =>
      b.score.cost.isBetterThan a.score.cost = false := by
  have hsame := rank_deprioritize_eq_keep hcs p
  have hprefix := rank_discard_isPrefix hcs p
  have hkeep : (rank { p with overBudget := .keep } cs).Pairwise fun a b =>
      b.score.cost.isBetterThan a.score.cost = false := by
    refine (pairwise_rank_keep p cs).imp fun hle => ?_
    rw [← Bool.not_eq_true, Cost.isBetterThan_iff]
    exact Int.not_lt.mpr hle
  refine ⟨hsame, hprefix, rank_discard_eq_filter p cs, fun policy => ?_⟩
  cases policy with
  | keep => exact hkeep
  | deprioritize => exact hsame ▸ hkeep
  | discard => exact hkeep.sublist hprefix.sublist

/-- Two null words cost more than a budget of one, so to deprioritize puts the
candidate with them last and to discard leaves the other one. -/
theorem rank_scored_null_words : ∃ (o : Options) (a b : Candidate),
    (∀ c ∈ [a, b], c.IsScoredBy o) ∧ a.score.overBudget = true ∧ b.score.overBudget = false ∧
    rank { o with overBudget := .deprioritize } [a, b] = [b, a] ∧
    rank { o with overBudget := .keep } [a, b] = [b, a] ∧
    rank { o with overBudget := .discard } [a, b] = [b] := by
  let o : Options := { maxCost := some .one }
  let a : Candidate := ⟨0, ⟨Cost.ofInt 2, true, 2, .zero, 0⟩⟩
  let b : Candidate := ⟨1, ⟨.zero, false, 0, .zero, 0⟩⟩
  have ha : a.IsScoredBy o := ⟨Linkage.empty 2, by decide +kernel⟩
  have hb : b.IsScoredBy o := ⟨Linkage.empty 0, by decide +kernel⟩
  have hscored : ∀ c ∈ [a, b], c.IsScoredBy o := by
    rw [List.forall_mem_cons, List.forall_mem_singleton]
    exact ⟨ha, hb⟩
  obtain ⟨hsame, -, hdiscard, -⟩ := rank_scored hscored o
  have hkeep : rank { o with overBudget := .keep } [a, b] = [b, a] := by decide +kernel
  refine ⟨o, a, b, hscored, rfl, rfl, hsame.trans hkeep, hkeep, ?_⟩
  rw [hdiscard, hkeep]
  rfl

end Candidate

end LinkParse
