import LinkParse.Proofs.Processing
import LinkParse.Proofs.Ranking

/-!
# Batch reports

What a report says when its processed linkages carry their own positions and
its candidates came in some order (`IsFiled`): the ranking has each admitted
candidate once, best first, every candidate leads back to its linkage, and
the well-formed linkages are those ranked and those discarded, the others
are rejected. None of this depends on the order of the candidates.
-/

namespace LinkParse

theorem Verdict.isWellFormed_iff {v : Verdict} : v.isWellFormed = true ↔ v = .wellFormed := by
  cases v <;> simp [isWellFormed]

namespace BatchReport

/-- The well-formed linkages that the policy leaves out of the ranking. -/
def discarded (r : BatchReport) (o : Options) : List Processed :=
  r.processed.filter fun q => o.overBudget = .discard ∧ q.score.any (·.overBudget)

/-- The report has each linkage at its own position, with a score exactly if
it is well formed, and ranks the scores in whatever order they came. -/
structure IsFiled (r : BatchReport) (o : Options) : Prop where
  index_eq : ∀ {i : Nat} {q : Processed}, r.processed[i]? = some q → q.index = i
  score_eq_none_iff : ∀ q ∈ r.processed, q.score = none ↔ q.verdict ≠ .wellFormed
  arrivals : ∃ cs : List Candidate, cs.Perm (r.processed.filterMap Processed.candidate?) ∧
    r.ranked = Candidate.rank o cs

variable {r : BatchReport} {o : Options} {c : Candidate} {q : Processed}

theorem candidate?_eq_some_iff :
    q.candidate? = some c ↔ q.index = c.index ∧ q.score = some c.score := by
  unfold Processed.candidate?
  rw [Option.map_eq_some_iff]
  constructor
  · rintro ⟨s, hs, rfl⟩
    exact ⟨rfl, hs⟩
  · rintro ⟨hindex, hscore⟩
    exact ⟨c.score, hscore, by rw [hindex]⟩

theorem mem_discarded : q ∈ r.discarded o ↔
    q ∈ r.processed ∧ o.overBudget = .discard ∧ q.score.any (·.overBudget) = true := by
  rw [discarded, List.mem_filter, decide_eq_true_eq]

theorem IsFiled.exists_score_iff (h : r.IsFiled o) (hq : q ∈ r.processed) :
    (∃ s, q.score = some s) ↔ q.verdict = .wellFormed := by
  rw [← Option.ne_none_iff_exists', ne_eq, h.score_eq_none_iff q hq, not_not]

/-! ## Ranked candidates -/

theorem mem_admitted {cs : List Candidate} : c ∈ Candidate.admitted o cs ↔
    c ∈ cs ∧ ¬(o.overBudget = .discard ∧ c.score.overBudget = true) := by
  unfold Candidate.admitted
  split
  · next hdiscard => simp [hdiscard]
  · next hkeep => simp [hkeep]

theorem IsFiled.ranked_perm (h : r.IsFiled o) :
    r.ranked.Perm (Candidate.admitted o (r.processed.filterMap Processed.candidate?)) := by
  obtain ⟨cs, hcs, hranked⟩ := h.arrivals
  rw [hranked]
  exact (Candidate.rank_perm o cs).trans (Candidate.admitted_perm hcs)

theorem IsFiled.pairwise_ranked (h : r.IsFiled o) :
    r.ranked.Pairwise fun a b => (Candidate.order o a b).isLE = true := by
  obtain ⟨cs, -, hranked⟩ := h.arrivals
  exact hranked ▸ Candidate.pairwise_rank o cs

/-- A candidate comes from the linkage at its own position. -/
theorem IsFiled.mem_candidates (h : r.IsFiled o) :
    c ∈ r.processed.filterMap Processed.candidate? ↔
      ∃ q, r.processed[c.index]? = some q ∧ q.candidate? = some c := by
  rw [List.mem_filterMap]
  constructor
  · rintro ⟨q, hq, hc⟩
    obtain ⟨i, hi⟩ := List.mem_iff_getElem?.mp hq
    obtain rfl : i = c.index := (h.index_eq hi).symm.trans (candidate?_eq_some_iff.mp hc).1
    exact ⟨q, hi, hc⟩
  · rintro ⟨q, hq, hc⟩
    exact ⟨q, List.mem_of_getElem? hq, hc⟩

theorem IsFiled.mem_ranked (h : r.IsFiled o) : c ∈ r.ranked ↔
    (∃ q, r.processed[c.index]? = some q ∧ q.candidate? = some c) ∧
      ¬(o.overBudget = .discard ∧ c.score.overBudget = true) := by
  rw [h.ranked_perm.mem_iff, mem_admitted, h.mem_candidates]

theorem IsFiled.pairwise_processed (h : r.IsFiled o) :
    r.processed.Pairwise fun q q' => q.index ≠ q'.index := by
  rw [List.pairwise_iff_getElem]
  intro i j hi hj hij
  rw [h.index_eq (List.getElem?_eq_getElem hi), h.index_eq (List.getElem?_eq_getElem hj)]
  exact hij.ne

theorem IsFiled.nodup_ranked (h : r.IsFiled o) : (r.ranked.map Candidate.index).Nodup := by
  rw [(h.ranked_perm.map _).nodup_iff]
  have hall : ((r.processed.filterMap Processed.candidate?).map Candidate.index).Nodup := by
    refine List.pairwise_map.mpr (h.pairwise_processed.filterMap _ fun q q' hne c hc c' hc' => ?_)
    rw [← (candidate?_eq_some_iff.mp hc).1, ← (candidate?_eq_some_iff.mp hc').1]
    exact hne
  refine (List.Sublist.map _ ?_).nodup hall
  unfold Candidate.admitted
  split
  · exact List.filter_sublist
  · exact List.Sublist.refl _

/-! ## Ranked linkages -/

theorem map_picked {processed : List Processed} : ∀ {cs : List Candidate},
    (∀ c ∈ cs, ∃ q, processed[c.index]? = some q ∧ q.candidate? = some c) →
      (cs.filterMap fun c => processed[c.index]?).map Processed.candidate? = cs.map some
  | [], _ => rfl
  | c :: cs, h => by
      rw [List.forall_mem_cons] at h
      obtain ⟨q, hq, hc⟩ := h.1
      rw [List.filterMap_cons, hq, List.map_cons, List.map_cons, hc, map_picked h.2]

/-- Every ranked candidate leads to its linkage, so none is missing. -/
theorem IsFiled.map_rankedLinkages (h : r.IsFiled o) :
    r.rankedLinkages.map Processed.candidate? = r.ranked.map some :=
  map_picked fun _ hc => (h.mem_ranked.mp hc).1

theorem IsFiled.mem_rankedLinkages (h : r.IsFiled o) : q ∈ r.rankedLinkages ↔
    q ∈ r.processed ∧ q.verdict = .wellFormed ∧ q ∉ r.discarded o := by
  unfold rankedLinkages
  simp only [List.mem_filterMap, h.mem_ranked, mem_discarded]
  constructor
  · rintro ⟨c, ⟨⟨q', hq', hc⟩, hkept⟩, hq⟩
    obtain rfl := Option.some.inj (hq'.symm.trans hq)
    have hscore := (candidate?_eq_some_iff.mp hc).2
    have hmem := List.mem_of_getElem? hq
    refine ⟨hmem, (h.exists_score_iff hmem).mp ⟨_, hscore⟩, ?_⟩
    rintro ⟨-, hdiscard⟩
    rw [hscore] at hdiscard
    exact hkept hdiscard
  · rintro ⟨hmem, hwell, hkept⟩
    obtain ⟨s, hs⟩ := (h.exists_score_iff hmem).mpr hwell
    obtain ⟨i, hi⟩ := List.mem_iff_getElem?.mp hmem
    have hc := candidate?_eq_some_iff (c := ⟨i, s⟩).mpr ⟨h.index_eq hi, hs⟩
    refine ⟨⟨i, s⟩, ⟨⟨q, hi, hc⟩, fun hdiscard => ?_⟩, hi⟩
    rw [hs] at hkept
    exact hkept ⟨hmem, hdiscard⟩

/-! ## Well-formed and rejected linkages -/

theorem IsFiled.wellFormedCount_eq (h : r.IsFiled o) :
    r.wellFormedCount = r.ranked.length + (r.discarded o).length := by
  have hcandidates : r.wellFormedCount = (r.processed.filterMap Processed.candidate?).length := by
    rw [List.length_filterMap_eq_countP]
    refine List.countP_congr fun q hq => ?_
    rw [Processed.candidate?, Option.isSome_map, Option.isSome_iff_exists, h.exists_score_iff hq,
      Verdict.isWellFormed_iff]
  have hover : (r.processed.filterMap Processed.candidate?).countP (·.score.overBudget)
      = r.processed.countP fun q => q.score.any (·.overBudget) := by
    rw [List.countP_filterMap]
    refine List.countP_congr fun q _ => ?_
    unfold Processed.candidate?
    cases q.score <;> rfl
  rw [hcandidates, h.ranked_perm.length_eq]
  unfold Candidate.admitted discarded
  by_cases hdiscard : o.overBudget = .discard
  · rw [if_pos hdiscard, List.length_eq_countP_add_countP (·.score.overBudget), hover,
      ← List.countP_eq_length_filter, ← List.countP_eq_length_filter, Nat.add_comm]
    simp [hdiscard]
  · simp [hdiscard]

/-- What is neither ranked nor discarded is rejected, in its old order. -/
theorem IsFiled.rejected_eq (h : r.IsFiled o) : r.rejected
    = r.processed.filter fun q => q ∉ r.rankedLinkages ∧ q ∉ r.discarded o := by
  refine List.filter_congr fun q hq => ?_
  have hwell : q ∈ r.discarded o → q.verdict = .wellFormed := by
    intro hq'
    obtain ⟨s, hs, -⟩ := Option.any_eq_true .. |>.mp (mem_discarded.mp hq').2.2
    exact (h.exists_score_iff hq).mp ⟨s, hs⟩
  have hranked := h.mem_rankedLinkages (q := q)
  rw [Bool.eq_iff_iff, Bool.not_eq_true', ← Bool.not_eq_true, Verdict.isWellFormed_iff,
    decide_eq_true_eq]
  tauto

/-! ## Reports on linkages -/

/-- What a report says about the linkages that it is on. -/
structure IsReportOn (p : Processor) (ks : List Linkage) (r : BatchReport) : Prop where
  length_eq : r.processed.length = ks.length
  /-- Each linkage is reported at its place, with what becomes of it on its own. -/
  alone : ∀ {i : Nat} {k : Linkage}, ks[i]? = some k → ∀ t, ∃ q q', r.processed[i]? = some q ∧
    (p.process t i k).2.outcome = .ok q' ∧ q.Matches q'
  nodup_ranked : (r.ranked.map Candidate.index).Nodup
  mem_ranked : ∀ c, c ∈ r.ranked ↔ ∃ q, r.processed[c.index]? = some q ∧
    q.verdict = .wellFormed ∧ q.score = some c.score ∧
    ¬(p.options.overBudget = .discard ∧ c.score.overBudget = true)
  pairwise_ranked : r.ranked.Pairwise fun a b => (Candidate.order p.options a b).isLE = true
  index_lt : ∀ c ∈ r.ranked, c.index < r.processed.length
  /-- The ranked linkages are those of the ranked candidates, one by one. -/
  map_rankedLinkages : r.rankedLinkages.map Processed.candidate? = r.ranked.map some
  mem_rankedLinkages : ∀ q, q ∈ r.rankedLinkages ↔
    q ∈ r.processed ∧ q.verdict = .wellFormed ∧ q ∉ r.discarded p.options
  wellFormedCount_eq : r.wellFormedCount = r.ranked.length + (r.discarded p.options).length
  rejected_eq : r.rejected = r.processed.filter fun q =>
    q ∉ r.rankedLinkages ∧ q ∉ r.discarded p.options

variable {p : Processor} {ks : List Linkage} {r' : BatchReport}

/-- Answers that are numbered from zero are filed with whatever order of
their candidates. -/
theorem isFiled_ofArrivals {qs : List Processed} (h : p.AnswersAll 0 ks qs) {cs : List Candidate}
    (hcs : cs.Perm (qs.filterMap Processed.candidate?)) :
    (ofArrivals p.options qs cs).IsFiled p.options where
  index_eq {i q} hq := by
    obtain ⟨k, -, hanswer⟩ := h.exists_linkage hq
    exact hanswer.index_eq.trans (Nat.zero_add i)
  score_eq_none_iff q hq := by
    obtain ⟨i, hi⟩ := List.mem_iff_getElem?.mp hq
    obtain ⟨k, -, hanswer⟩ := h.exists_linkage hi
    exact hanswer.score_eq_none_iff
  arrivals := ⟨cs, hcs, rfl⟩

theorem isReportOn (handled : ∀ k ∈ ks, p.Handles k) (h : p.AnswersAll 0 ks r.processed)
    (hfiled : r.IsFiled p.options) : r.IsReportOn p ks where
  length_eq := h.length_eq
  alone {i k} hk t := by
    obtain ⟨q', hq', hanswer', -⟩ :=
      (handled k (List.mem_of_getElem? hk)).exists_process_eq_ok t i
    obtain ⟨q, hq, hanswer⟩ := h.exists_answer hk
    rw [Nat.zero_add] at hanswer
    exact ⟨q, q', hq, hq', hanswer.agree hanswer'⟩
  nodup_ranked := hfiled.nodup_ranked
  mem_ranked c := by
    rw [hfiled.mem_ranked]
    constructor
    · rintro ⟨⟨q, hq, hc⟩, hkept⟩
      have hscore := (candidate?_eq_some_iff.mp hc).2
      have hwell := (hfiled.exists_score_iff (List.mem_of_getElem? hq)).mp ⟨_, hscore⟩
      exact ⟨q, hq, hwell, hscore, hkept⟩
    · rintro ⟨q, hq, -, hscore, hkept⟩
      exact ⟨⟨q, hq, candidate?_eq_some_iff.mpr ⟨hfiled.index_eq hq, hscore⟩⟩, hkept⟩
  pairwise_ranked := hfiled.pairwise_ranked
  index_lt c hc := by
    obtain ⟨q, hq, -⟩ := (hfiled.mem_ranked.mp hc).1
    exact (List.getElem?_eq_some_iff.mp hq).1
  map_rankedLinkages := hfiled.map_rankedLinkages
  mem_rankedLinkages _ := hfiled.mem_rankedLinkages
  wellFormedCount_eq := hfiled.wellFormedCount_eq
  rejected_eq := hfiled.rejected_eq

theorem filterMap_candidate?_eq : ∀ {qs rs : List Processed}, List.Forall₂ Processed.Matches qs rs →
    qs.filterMap Processed.candidate? = rs.filterMap Processed.candidate?
  | _, _, .nil => rfl
  | q :: _, r :: _, .cons h hs => by
      have hc : q.candidate? = r.candidate? := by
        unfold Processed.candidate?
        rw [h.index_eq, h.score_eq]
      rw [List.filterMap_cons, List.filterMap_cons, hc, filterMap_candidate?_eq hs]

/-- There is one report on linkages up to the entries of labels. -/
theorem report_unique (h : p.AnswersAll 0 ks r.processed) (h' : p.AnswersAll 0 ks r'.processed)
    (hfiled : r.IsFiled p.options) (hfiled' : r'.IsFiled p.options) :
    List.Forall₂ Processed.Matches r.processed r'.processed ∧ r.ranked = r'.ranked := by
  have hmatches := h.forall₂_matches h'
  refine ⟨hmatches, ?_⟩
  obtain ⟨cs, hcs, hranked⟩ := hfiled.arrivals
  obtain ⟨cs', hcs', hranked'⟩ := hfiled'.arrivals
  rw [hranked, hranked']
  exact Candidate.rank_of_perm (hcs.trans (filterMap_candidate?_eq hmatches ▸ hcs'.symm))

end BatchReport

end LinkParse
