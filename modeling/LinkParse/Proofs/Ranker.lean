import LinkParse.Proofs.Calls
import LinkParse.Proofs.Ranking
import Mathlib.Data.List.Sort

/-!
# Rankers in use

A ranker may be asked for rankings at any time, by any options, between
submissions. Every call is answered by the candidates that were submitted
before it, in whatever order they came, and by nothing else: not by earlier
questions, and not by the options of these (`Ranker.isRecordOf_run`).

A ranking by the same options can only gain candidates. It is ascending in a
strict order, so what is submitted later finds its place between those that
are ranked already and moves none of them (`Candidate.rank_sublist_rank`).
-/

namespace LinkParse

/-- The options agree on all that the order of candidates looks at, as equal
options do, and options that differ in their weights only. -/
structure Options.RanksLike (o p : Options) : Prop where
  overBudget_eq : o.overBudget = p.overBudget
  preferFewerNulls_eq : o.preferFewerNulls = p.preferFewerNulls
  shortLengthPreference_eq : o.shortLengthPreference = p.shortLengthPreference

namespace Candidate

variable {o p : Options} {a b : Candidate} {cs ds : List Candidate}

theorem order_congr (h : o.RanksLike p) : order o = order p := by
  funext a b
  unfold order
  rw [h.overBudget_eq, h.preferFewerNulls_eq, h.shortLengthPreference_eq]

theorem rank_congr (h : o.RanksLike p) (cs : List Candidate) : rank o cs = rank p cs := by
  unfold rank
  rw [order_congr h, h.overBudget_eq]

theorem order_refl (o : Options) (a : Candidate) : (order o a a).isLE = true := by
  have hself : order o a a = .eq := Std.ReflCmp.compare_self
  rw [hself]
  rfl

/-! ## Rankings that grow -/

instance (o : Options) : Std.Antisymm fun a b => (order o a b).isLE = true where
  antisymm _ _ hab hba := eq_of_order_eq (Std.OrientedCmp.isLE_antisymm hab hba)

theorem admitted_subperm (h : cs.Subperm ds) : (admitted o cs).Subperm (admitted o ds) := by
  unfold admitted
  split
  · exact h.filter _
  · exact h

/-- With more candidates, those that are ranked already keep their order. -/
theorem rank_sublist_rank (h : cs.Subperm ds) : (rank o cs).Sublist (rank o ds) := by
  have hsubperm : (rank o cs).Subperm (rank o ds) :=
    ((rank_perm o cs).subperm.trans (admitted_subperm h)).trans (rank_perm o ds).symm.subperm
  exact List.sublist_of_subperm_of_pairwise hsubperm (pairwise_rank o cs) (pairwise_rank o ds)

/-- The head of a ranking is one of the candidates left by the policy, and none
of these comes before it. -/
theorem head?_rank_le (h : (rank o cs).head? = some a) :
    a ∈ admitted o cs ∧ ∀ b ∈ admitted o cs, (order o a b).isLE = true := by
  have hperm := rank_perm o cs
  refine ⟨hperm.mem_iff.mp (List.mem_of_head? h), fun b hb => ?_⟩
  have hsorted := pairwise_rank o cs
  have hmem := hperm.mem_iff.mpr hb
  cases hrank : rank o cs with
  | nil => rw [hrank] at h; cases h
  | cons c rest =>
      rw [hrank] at h hsorted hmem
      obtain rfl := Option.some.inj h
      rcases List.mem_cons.mp hmem with rfl | hrest
      · exact order_refl o b
      · exact (List.pairwise_cons.mp hsorted).1 b hrest

end Candidate

namespace Ranker

/-! ## Calls -/

inductive Call where
  | submit (c : Candidate)
  | size
  | ranked (o : Options)
  | best (o : Options)
deriving DecidableEq

inductive Answer where
  | submitted
  | size (n : Nat)
  | ranked (cs : List Candidate)
  | best (c : Option Candidate)
deriving DecidableEq

def call (r : Ranker) : Call → Ranker × Answer
  | .submit c => (r.submit c, .submitted)
  | .size => (r, .size r.size)
  | .ranked o => (r, .ranked (r.ranked o))
  | .best o => (r, .best (r.best? o))

namespace Call

/-- The candidate that a call brings. All other calls are questions. -/
def candidate? : Call → Option Candidate
  | submit c => some c
  | _ => none

/-- The answer to a call where the candidates have been submitted before. -/
def answer (cs : List Candidate) : Call → Answer
  | submit _ => .submitted
  | size => .size cs.length
  | ranked o => .ranked (Candidate.rank o cs)
  | best o => .best (Candidate.rank o cs).head?

end Call

/-- The candidates that calls bring, in their order. -/
def submitted (calls : List Call) : List Candidate := calls.filterMap Call.candidate?

variable {r : Ranker} {calls : List Call} {cs ds : List Candidate} {i j : Nat} {o p : Options}

theorem Call.answer_of_perm (h : cs.Perm ds) (c : Call) : c.answer cs = c.answer ds := by
  cases c with
  | submit c => rfl
  | size => exact congrArg Answer.size h.length_eq
  | ranked o => exact congrArg Answer.ranked (Candidate.rank_of_perm h)
  | best o => exact congrArg (fun cs => Answer.best cs.head?) (Candidate.rank_of_perm h)

/-! ## One call -/

theorem candidates_call (r : Ranker) (c : Call) :
    (r.call c).1.candidates = r.candidates ++ c.candidate?.toList := by
  cases c with
  | submit c => rfl
  | size => exact (List.append_nil _).symm
  | ranked o => exact (List.append_nil _).symm
  | best o => exact (List.append_nil _).symm

theorem answer_call (r : Ranker) (c : Call) : (r.call c).2 = c.answer r.candidates := by
  cases c <;> rfl

theorem call_of_candidate?_eq_none {c : Call} (h : c.candidate? = none) (r : Ranker) :
    (r.call c).1 = r := by
  cases c with
  | submit c => cases h
  | size => rfl
  | ranked o => rfl
  | best o => rfl

/-! ## Runs -/

/-- The ranker after calls, and their answers. -/
def run (r : Ranker) (calls : List Call) : Ranker × List Answer := Calls.run call r calls

theorem candidates_run (r : Ranker) (calls : List Call) :
    (r.run calls).1.candidates = r.candidates ++ submitted calls := by
  unfold run
  induction calls generalizing r with
  | nil => simp [submitted]
  | cons c calls ih =>
      rw [Calls.run_cons, ih, candidates_call, List.append_assoc, submitted, submitted,
        List.filterMap_cons]
      cases c.candidate? <;> rfl

theorem candidates_run_empty (calls : List Call) :
    (run {} calls).1.candidates = submitted calls := by
  rw [candidates_run, List.nil_append]

theorem getElem?_answers_run (i : Nat) :
    (run {} calls).2[i]? = calls[i]?.map (Call.answer (submitted (calls.take i))) := by
  unfold run
  rw [Calls.getElem?_answers]
  congr 1
  funext c
  rw [answer_call]
  exact congrArg c.answer (candidates_run_empty _)

theorem submitted_take_subperm (h : i ≤ j) :
    (submitted (calls.take i)).Subperm (submitted (calls.take j)) :=
  ((List.take_sublist_take_left h).filterMap _).subperm

theorem submitted_take_subperm_submitted (calls : List Call) (i : Nat) :
    (submitted (calls.take i)).Subperm (submitted calls) :=
  ((List.take_sublist i calls).filterMap _).subperm

theorem answer_ranked_run (hi : calls[i]? = some (.ranked o)) :
    (run {} calls).2[i]? = some (.ranked (Candidate.rank o (submitted (calls.take i)))) := by
  rw [getElem?_answers_run, hi]
  rfl

/-- What is true of a ranker that began without candidates, and of the answers
that it has given, after calls. -/
structure IsRecordOf (calls : List Call) (r : Ranker) (answers : List Answer) : Prop where
  length_eq : answers.length = calls.length
  /-- A call's answer is a function of the call and of the candidates that were
  submitted before it, which may be taken in any order. -/
  answer_eq : ∀ {i : Nat} {c : Call}, calls[i]? = some c →
    ∀ cs, cs.Perm (submitted (calls.take i)) → answers[i]? = some (c.answer cs)
  /-- The best candidate is one that the policy leaves, and no other of these
  comes before it. There is one unless none is left. -/
  best_le : ∀ {i : Nat} {o : Options} {best : Option Candidate},
    calls[i]? = some (.best o) → answers[i]? = some (.best best) →
      (best = none ↔ Candidate.admitted o (submitted (calls.take i)) = []) ∧
      ∀ a, best = some a → a ∈ Candidate.admitted o (submitted (calls.take i)) ∧
        ∀ b ∈ Candidate.admitted o (submitted (calls.take i)), (Candidate.order o a b).isLE = true
  /-- Without one of the questions the ranker and the other answers are the
  same. -/
  question_idle : ∀ {before after : List Call} {c : Call}, calls = before ++ c :: after →
    c.candidate? = none → run {} (before ++ after) = (r, answers.eraseIdx before.length)
  /-- A later ranking has the candidates of an earlier one in their order. -/
  ranked_sublist : ∀ {i j : Nat} {o p : Options} {cs ds : List Candidate}, i ≤ j →
    o.RanksLike p → calls[i]? = some (.ranked o) → answers[i]? = some (.ranked cs) →
      calls[j]? = some (.ranked p) → answers[j]? = some (.ranked ds) → cs.Sublist ds
  /-- To give the ranker up is to rank for the last time. -/
  intoRanked_eq : ∀ o cs, cs.Perm (submitted calls) →
    r.intoRanked o = Candidate.rank o cs ∧ (r.call (.ranked o)).2 = .ranked (r.intoRanked o)
  sublist_intoRanked : ∀ {i : Nat} {o p : Options} {cs : List Candidate}, o.RanksLike p →
    calls[i]? = some (.ranked o) → answers[i]? = some (.ranked cs) → cs.Sublist (r.intoRanked p)

theorem isRecordOf_run (calls : List Call) :
    IsRecordOf calls (run {} calls).1 (run {} calls).2 where
  length_eq := Calls.length_answers
  answer_eq {i c} hc cs hcs := by
    rw [getElem?_answers_run, hc, Option.map_some, c.answer_of_perm hcs]
  best_le {i o best} hc hbest := by
    rw [getElem?_answers_run, hc] at hbest
    obtain hbest := Answer.best.inj (Option.some.inj hbest)
    subst hbest
    refine ⟨?_, fun a ha => Candidate.head?_rank_le ha⟩
    rw [List.head?_eq_none_iff, ← List.length_eq_zero_iff, ← List.length_eq_zero_iff,
      (Candidate.rank_perm ..).length_eq]
  question_idle {before after c} hcalls hc := by
    subst hcalls
    exact Calls.run_eraseIdx (call_of_candidate?_eq_none hc)
  ranked_sublist {i j o p cs ds} hij hlike hi hcs hj hds := by
    rw [answer_ranked_run hi] at hcs
    rw [answer_ranked_run hj] at hds
    obtain rfl := Answer.ranked.inj (Option.some.inj hcs)
    obtain rfl := Answer.ranked.inj (Option.some.inj hds)
    rw [Candidate.rank_congr hlike]
    exact Candidate.rank_sublist_rank (submitted_take_subperm hij)
  intoRanked_eq o cs hcs := by
    refine ⟨?_, rfl⟩
    unfold intoRanked
    rw [candidates_run_empty]
    exact Candidate.rank_of_perm hcs.symm
  sublist_intoRanked {i o p cs} hlike hi hcs := by
    rw [answer_ranked_run hi] at hcs
    obtain rfl := Answer.ranked.inj (Option.some.inj hcs)
    unfold intoRanked
    rw [candidates_run_empty, Candidate.rank_congr hlike]
    exact Candidate.rank_sublist_rank (submitted_take_subperm_submitted calls i)

/-- The first candidate is over the budget, so it is best or left out as the
options of the question say. -/
example :
    let a : Candidate := ⟨0, ⟨Cost.ofInt 1, true, 0, .zero, 0⟩⟩
    let b : Candidate := ⟨1, ⟨Cost.ofInt 2, false, 0, .zero, 0⟩⟩
    (run {} [.submit a, .ranked { overBudget := .discard }, .submit b, .best {},
      .best { overBudget := .keep }, .ranked { overBudget := .discard }, .size]).2 =
    [.submitted, .ranked [], .submitted, .best (some b), .best (some a), .ranked [b], .size 2] := by
  decide +kernel

end Ranker

end LinkParse
