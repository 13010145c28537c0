import LinkParse.Processor
import LinkParse.Proofs.Labeling
import LinkParse.Proofs.Score
import LinkParse.Proofs.Verdict

/-!
# Processing linkages one by one

What becomes of a linkage depends on the processor and the linkage alone. The
label table decides only which entries its labels get, and neither analysis
nor scoring looks at entries (`SpelledAlike.analyze_eq`,
`SpelledAlike.score_eq`). So the answers that a processor may give to a linkage
are described without a table (`Answers`), and any two of them match
(`Answers.agree`).

A run over a list is one answer for each linkage (`processAll_ok`), as long
as the processor handles each (`Handles`): the connectors of its links agree,
and scoring does not fail. When scoring fails is known from the weights and
the linkage.
-/

namespace LinkParse

/-! ## Answers of logged operations -/

namespace Logged

variable {α β : Type}

theorem outcome_bind (x : Logged α) (f : α → Logged β) :
    (x >>= f).outcome = x.outcome.bind fun a => (f a).outcome := by
  show (Logged.bind x f).outcome = _
  unfold Logged.bind
  cases x.outcome <;> rfl

@[simp] theorem outcome_reporting (outcome : Except Fault α) (event : α → Event) :
    (reporting outcome event).outcome = outcome := by
  cases outcome <;> rfl

end Logged

theorem Linkage.outcome_analyzeLogged (k : Linkage) (rules : RuleSet) :
    (k.analyzeLogged rules).outcome = k.analyze rules := by
  unfold Linkage.analyzeLogged
  split
  · exact Logged.outcome_reporting _ _
  · rfl

theorem Linkage.outcome_scoreLogged (k : Linkage) (o : Options) :
    (k.scoreLogged o).outcome = (k.score o).mapError .score :=
  Logged.outcome_reporting _ _

/-! ## What analysis and scoring look at -/

namespace Linkage

variable {k m : Linkage}

/-- The linkage without labels. -/
def unlabeled (k : Linkage) : Linkage :=
  k.relabel (k.links.map Link.bare) (by rw [List.map_map]; rfl)

theorem score_unlabeled (k : Linkage) (o : Options) : k.unlabeled.score o = k.score o := by
  have hflags : k.unlabeled.linkedFlags = k.linkedFlags := List.foldl_map
  have hspans : k.unlabeled.links.map Link.span = k.links.map Link.span := by
    show (k.links.map Link.bare).map Link.span = _
    rw [List.map_map]
    rfl
  have hnulls : k.unlabeled.nullCount = k.nullCount := congrArg (List.count false) hflags
  have hspan : ∀ measure, k.unlabeled.span measure = k.span measure
    | .sum => congrArg (List.foldl (· + ·) 0) hspans
    | .max => congrArg (List.foldl max 0) hspans
  have hcost : k.unlabeled.weightedCost o = k.weightedCost o := by
    unfold weightedCost
    rw [hnulls, hspan]
    rfl
  unfold score
  rw [hcost, hnulls, hspan]
  rfl

theorem score_of_bare_eq (hwords : k.words = m.words) (hcost : k.cost = m.cost)
    (hbare : k.links.map Link.bare = m.links.map Link.bare) (o : Options) :
    k.score o = m.score o := by
  have hsame : k.unlabeled = m.unlabeled := ext_iff.mpr ⟨hwords, hbare, hcost⟩
  rw [← score_unlabeled, hsame, score_unlabeled]

theorem SpelledAlike.bare_eq (h : k.SpelledAlike m) :
    k.links.map Link.bare = m.links.map Link.bare := by
  have hfst := congrArg (List.map Prod.fst) h.spelling_eq
  rwa [List.map_map, List.map_map] at hfst

theorem SpelledAlike.diagram?_eq (h : k.SpelledAlike m) : k.diagram? = m.diagram? := by
  have hlabeled : k.isLabeled = m.isLabeled := by
    have hall := congrArg (fun spellings => spellings.all (·.2.isSome)) h.spelling_eq
    simp only [List.all_map, Function.comp_def, Link.spelling, Option.isSome_map] at hall
    exact hall
  have harcs : k.links.map Link.arc = m.links.map Link.arc := by
    have hmap := congrArg (List.map fun s : Link × Option String =>
      (⟨s.1.left, s.1.right, s.2.getD "", s.1.left_lt_right⟩ : Arc)) h.spelling_eq
    rwa [List.map_map, List.map_map] at hmap
  unfold diagram?
  simp only [hlabeled, harcs, h.words_eq]

theorem SpelledAlike.analyze_eq (h : k.SpelledAlike m) (rules : RuleSet) :
    k.analyze rules = m.analyze rules := by
  unfold analyze
  rw [h.diagram?_eq]

theorem SpelledAlike.score_eq (h : k.SpelledAlike m) (o : Options) : k.score o = m.score o :=
  score_of_bare_eq h.words_eq h.cost_eq h.bare_eq o

end Linkage

/-! ## Answers -/

/-- The two differ in the entries of labels at most. -/
structure Processed.Matches (q r : Processed) : Prop where
  index_eq : q.index = r.index
  linkage : q.linkage.SpelledAlike r.linkage
  verdict_eq : q.verdict = r.verdict
  score_eq : q.score = r.score

/-- Every label of the linkage is an entry of the table. -/
def Processed.StandsIn (q : Processed) (t : LabelTable) : Prop :=
  ∀ l ∈ q.linkage.links, ∀ a ∈ l.label, a.StandsIn t

theorem Processed.StandsIn.mono {q : Processed} {t u : LabelTable} {texts : List String}
    (h : q.StandsIn t) (hgrows : t.GrowsBy texts u) : q.StandsIn u :=
  fun l hl a ha => hgrows.standsIn (h l hl a ha)

namespace Processor

/-- `q` is an answer of the processor to the linkage `k` under a number. -/
structure Answers (p : Processor) (index : Nat) (k : Linkage) (q : Processed) : Prop where
  index_eq : q.index = index
  labeled : Linkage.IsLabeledBy p.labelRule k q.linkage
  analyzed : q.linkage.analyze p.rules = .ok q.verdict
  scored : q.verdict = .wellFormed → ∃ s, q.score = some s ∧ q.linkage.score p.options = .ok s
  unscored : q.verdict ≠ .wellFormed → q.score = none

variable {p : Processor} {index : Nat} {k : Linkage} {q r : Processed} {t : LabelTable}

theorem Answers.score_eq_none_iff (h : p.Answers index k q) :
    q.score = none ↔ q.verdict ≠ .wellFormed := by
  refine ⟨fun hnone hverdict => ?_, h.unscored⟩
  obtain ⟨s, hs, -⟩ := h.scored hverdict
  rw [hnone] at hs
  cases hs

/-- There is one answer up to the entries of labels. -/
theorem Answers.agree (hq : p.Answers index k q) (hr : p.Answers index k r) : q.Matches r := by
  have halike := hq.labeled.spelledAlike hr.labeled
  have hverdict : q.verdict = r.verdict :=
    Except.ok.inj (hq.analyzed.symm.trans ((halike.analyze_eq _).trans hr.analyzed))
  refine ⟨hq.index_eq.trans hr.index_eq.symm, halike, hverdict, ?_⟩
  by_cases hwell : q.verdict = .wellFormed
  · obtain ⟨s, hs, hscore⟩ := hq.scored hwell
    obtain ⟨s', hs', hscore'⟩ := hr.scored (hverdict ▸ hwell)
    rw [halike.score_eq, hscore', Except.ok.injEq] at hscore
    rw [hs, hs', hscore]
  · rw [hq.unscored hwell, hr.unscored (hverdict ▸ hwell)]

/-! ### Judging -/

theorem outcome_judge (p : Processor) (index : Nat) (k : Linkage) :
    (p.judge index k).outcome = (k.analyze p.rules).bind fun
      | .wellFormed => ((k.score p.options).mapError Fault.score).bind fun s =>
          .ok ⟨index, k, .wellFormed, some s⟩
      | .violated v => .ok ⟨index, k, .violated v, none⟩ := by
  unfold judge
  rw [Logged.outcome_bind, Linkage.outcome_analyzeLogged]
  congr 1
  funext verdict
  cases verdict with
  | wellFormed => exact (Logged.outcome_bind ..).trans (by rw [Linkage.outcome_scoreLogged]; rfl)
  | violated v => rfl

/-- What judging a labeled linkage comes to: it breaks a rule, or it has a
score, or scoring fails. -/
inductive Judgement (p : Processor) (index : Nat) (k : Linkage) :
    Except Fault Processed → Prop where
  | rejected {v : Violation} (hverdict : k.diagram.analyze p.rules = .violated v) :
      Judgement p index k (.ok ⟨index, k, .violated v, none⟩)
  | scored {s : Score} (hverdict : k.diagram.analyze p.rules = .wellFormed)
      (hscore : k.score p.options = .ok s) :
      Judgement p index k (.ok ⟨index, k, .wellFormed, some s⟩)
  | failed {fault : Score.Fault} (hverdict : k.diagram.analyze p.rules = .wellFormed)
      (hscore : k.score p.options = .error fault) :
      Judgement p index k (.error (.score fault))

theorem judgement_of_isLabeled (p : Processor) (index : Nat) (h : k.isLabeled = true) :
    Judgement p index k (p.judge index k).outcome := by
  rw [outcome_judge, Linkage.analyze_of_isLabeled h]
  cases hverdict : k.diagram.analyze p.rules with
  | violated v => exact .rejected hverdict
  | wellFormed =>
      cases hscore : k.score p.options with
      | ok s => exact .scored hverdict hscore
      | error fault => exact .failed hverdict hscore

variable {m : Linkage}

theorem answers_of_judge (hm : Linkage.IsLabeledBy p.labelRule k m)
    (hq : (p.judge index m).outcome = .ok q) : p.Answers index k q ∧ q.linkage = m := by
  have hanalyze := Linkage.analyze_of_isLabeled hm.isLabeled p.rules
  have hjudgement := judgement_of_isLabeled p index hm.isLabeled
  rw [hq] at hjudgement
  cases hjudgement with
  | rejected hverdict =>
      exact ⟨⟨rfl, hm, hverdict ▸ hanalyze, fun h => Verdict.noConfusion h, fun _ => rfl⟩, rfl⟩
  | scored hverdict hscore =>
      exact ⟨⟨rfl, hm, hverdict ▸ hanalyze, fun _ => ⟨_, rfl, hscore⟩, fun h => absurd rfl h⟩, rfl⟩

/-- Judging fails only where scoring fails on a well-formed linkage. -/
theorem judge_eq_error_iff (hm : Linkage.IsLabeledBy p.labelRule k m) {e : Fault} :
    (p.judge index m).outcome = .error e ↔
      m.analyze p.rules = .ok .wellFormed ∧
        ∃ fault, k.score p.options = .error fault ∧ e = .score fault := by
  rw [← Linkage.score_of_bare_eq hm.words_eq hm.cost_eq hm.bare_eq,
    Linkage.analyze_of_isLabeled hm.isLabeled, Except.ok.injEq]
  have hjudgement := judgement_of_isLabeled p index hm.isLabeled
  generalize (p.judge index m).outcome = outcome at *
  cases hjudgement with
  | rejected hverdict => simp [hverdict]
  | scored hverdict hscore => simp [hscore]
  | failed hverdict hscore =>
      rw [hscore, Except.error.injEq, and_iff_right hverdict]
      constructor
      · rintro rfl
        exact ⟨_, rfl, rfl⟩
      · rintro ⟨_, h, rfl⟩
        rw [Except.error.inj h]

/-! ### Single linkages -/

/-- The processor has an answer to the linkage: its connectors agree, and
scoring does not fail on it. -/
structure Handles (p : Processor) (k : Linkage) : Prop where
  agrees : ∀ l ∈ k.links, p.labelRule.AgreesOn l
  scores : ∀ t index fault, (p.process t index k).2.outcome ≠ .error (.score fault)

theorem outcome_process (agrees : ∀ l ∈ k.links, p.labelRule.AgreesOn l) :
    (p.process t index k).2.outcome
      = (p.judge index (k.deriveLabels p.labelRule t).linkage).outcome := by
  unfold process
  dsimp only
  rw [Linkage.mismatch_deriveLabels_eq_none_iff.mpr agrees]

/-- Scoring fails on no labeled copy of the linkage. -/
theorem Handles.exists_judge_eq_ok (h : p.Handles k) (hm : Linkage.IsLabeledBy p.labelRule k m)
    (index : Nat) :
    ∃ q, (p.judge index m).outcome = .ok q ∧ p.Answers index k q ∧ q.linkage = m := by
  cases hq : (p.judge index m).outcome with
  | ok q => exact ⟨q, rfl, answers_of_judge hm hq⟩
  | error e =>
      obtain ⟨hwell, fault, hfault, rfl⟩ := (judge_eq_error_iff hm).mp hq
      have hderived := Linkage.isLabeledBy_deriveLabels (t := .empty 0) h.agrees
      have hsame := (hm.spelledAlike hderived).analyze_eq p.rules
      refine absurd ?_ (h.scores (.empty 0) index fault)
      rw [outcome_process h.agrees]
      exact (judge_eq_error_iff hderived).mpr ⟨hsame ▸ hwell, fault, hfault, rfl⟩

theorem Handles.exists_process_eq_ok (h : p.Handles k) (t : LabelTable) (index : Nat) :
    ∃ q, (p.process t index k).2.outcome = .ok q ∧ p.Answers index k q ∧
      q.StandsIn (p.process t index k).1 := by
  rw [outcome_process h.agrees]
  obtain ⟨q, hq, hanswer, hlinkage⟩ :=
    h.exists_judge_eq_ok (Linkage.isLabeledBy_deriveLabels (t := t) h.agrees) index
  refine ⟨q, hq, hanswer, ?_⟩
  unfold Processed.StandsIn
  rw [hlinkage]
  exact Linkage.standsIn_deriveLabels h.agrees

/-- Of the three stages only the last one has faults of scores. -/
theorem process_eq_score_fault_iff {fault : Score.Fault} :
    (p.process t index k).2.outcome = .error (.score fault) ↔
      (∀ l ∈ k.links, p.labelRule.AgreesOn l) ∧
      (k.deriveLabels p.labelRule t).linkage.analyze p.rules = .ok .wellFormed ∧
      k.score p.options = .error fault := by
  by_cases hagrees : ∀ l ∈ k.links, p.labelRule.AgreesOn l
  · rw [outcome_process hagrees, judge_eq_error_iff (Linkage.isLabeledBy_deriveLabels hagrees),
      and_iff_right hagrees]
    simp only [Fault.score.injEq, exists_eq_right']
  · refine iff_of_false (fun h => ?_) fun h => hagrees h.1
    have hmismatch := mt (Linkage.mismatch_deriveLabels_eq_none_iff (t := t)).mp hagrees
    unfold process at h
    dsimp only at h
    split at h
    · cases h
    · next hnone => exact hmismatch hnone

theorem handles_of_not_termsClash (agrees : ∀ l ∈ k.links, p.labelRule.AgreesOn l)
    (sized : k.IsSized) (hclash : ¬ k.TermsClash p.options) : p.Handles k := by
  refine ⟨agrees, fun t index fault h => ?_⟩
  obtain ⟨-, -, hscore⟩ := process_eq_score_fault_iff.mp h
  exact hclash ((Linkage.score_eq_error_iff p.options_usable sized).mp hscore).2

/-! ### Lists of linkages -/

/-- One answer for each linkage, under consecutive numbers. -/
structure AnswersAll (p : Processor) (first : Nat) (ks : List Linkage) (qs : List Processed) :
    Prop where
  length_eq : qs.length = ks.length
  answers : ∀ {i k q}, ks[i]? = some k → qs[i]? = some q → p.Answers (first + i) k q

theorem AnswersAll.cons {first : Nat} {ks : List Linkage} {qs : List Processed}
    (hq : p.Answers first k q) (h : p.AnswersAll (first + 1) ks qs) :
    p.AnswersAll first (k :: ks) (q :: qs) := by
  refine ⟨congrArg (· + 1) h.length_eq, fun {i k' q'} hk' hq' => ?_⟩
  cases i with
  | zero =>
      obtain rfl := Option.some.inj hk'
      obtain rfl := Option.some.inj hq'
      exact hq
  | succ i =>
      have hi := h.answers hk' hq'
      rwa [Nat.add_assoc, Nat.add_comm 1] at hi

theorem AnswersAll.exists_answer {first : Nat} {ks : List Linkage} {qs : List Processed}
    (h : p.AnswersAll first ks qs) {i : Nat} (hk : ks[i]? = some k) :
    ∃ q, qs[i]? = some q ∧ p.Answers (first + i) k q := by
  have hi : i < qs.length := h.length_eq ▸ (List.getElem?_eq_some_iff.mp hk).1
  have hq := List.getElem?_eq_getElem hi
  exact ⟨_, hq, h.answers hk hq⟩

theorem AnswersAll.exists_linkage {first : Nat} {ks : List Linkage} {qs : List Processed}
    (h : p.AnswersAll first ks qs) {i : Nat} (hq : qs[i]? = some q) :
    ∃ k, ks[i]? = some k ∧ p.Answers (first + i) k q := by
  have hi : i < ks.length := h.length_eq ▸ (List.getElem?_eq_some_iff.mp hq).1
  have hk := List.getElem?_eq_getElem hi
  exact ⟨_, hk, h.answers hk hq⟩

theorem AnswersAll.forall₂_matches {first : Nat} {ks : List Linkage} {qs rs : List Processed}
    (hq : p.AnswersAll first ks qs) (hr : p.AnswersAll first ks rs) :
    List.Forall₂ Processed.Matches qs rs := by
  refine List.forall₂_iff_get.mpr ⟨hq.length_eq.trans hr.length_eq.symm, fun i hi hi' => ?_⟩
  obtain ⟨k, hk, hanswer⟩ := hq.exists_linkage (List.getElem?_eq_getElem hi)
  exact hanswer.agree (hr.answers hk (List.getElem?_eq_getElem hi'))

/-- The texts that a rule spells for all links of all linkages. -/
def textsOf (p : Processor) (ks : List Linkage) : List String :=
  ks.flatMap fun k => k.links.map p.labelRule.textOf

theorem processAll_cons_ok {first : Nat} {ks : List Linkage}
    (hq : (p.process t first k).2.outcome = .ok q) :
    p.processAll t first (k :: ks) =
      let rest := p.processAll (p.process t first k).1 (first + 1) ks
      (rest.1, rest.2.map (q :: ·)) := by
  rw [processAll]
  simp only [hq]

theorem processAll_cons_error {first : Nat} {ks : List Linkage} {e : Fault}
    (he : (p.process t first k).2.outcome = .error e) :
    (p.processAll t first (k :: ks)).2 = .error e := by
  rw [processAll]
  simp only [he]

/-- A run over linkages that are handled answers all of them, and the table
grows by their texts and has their labels. -/
theorem processAll_ok : ∀ (t : LabelTable) (first : Nat) {ks : List Linkage},
    (∀ k ∈ ks, p.Handles k) → ∃ qs, (p.processAll t first ks).2 = .ok qs ∧
      p.AnswersAll first ks qs ∧ t.GrowsBy (p.textsOf ks) (p.processAll t first ks).1 ∧
      ∀ q ∈ qs, q.StandsIn (p.processAll t first ks).1
  | t, _, [], _ => ⟨[], rfl, ⟨rfl, nofun⟩, .refl t, nofun⟩
  | t, first, k :: ks, h => by
      rw [List.forall_mem_cons] at h
      obtain ⟨q, hq, hanswer, hstands⟩ := h.1.exists_process_eq_ok t first
      obtain ⟨qs, hqs, hanswers, hgrows, hrest⟩ :=
        processAll_ok (p.process t first k).1 (first + 1) h.2
      rw [processAll_cons_ok hq]
      dsimp only
      refine ⟨q :: qs, by rw [hqs]; rfl, hanswers.cons hanswer, ?_, ?_⟩
      · exact (Linkage.growsBy_deriveLabels h.1.agrees).trans hgrows
      · exact List.forall_mem_cons.mpr ⟨hstands.mono hgrows, hrest⟩

/-- A fault of scores that ends a run is one of a linkage in the list. -/
theorem exists_of_processAll_eq_score_fault {fault : Score.Fault} :
    ∀ {t : LabelTable} {first : Nat} {ks : List Linkage},
      (p.processAll t first ks).2 = .error (.score fault) →
        ∃ k ∈ ks, k.score p.options = .error fault
  | _, _, [], h => nomatch h
  | t, first, k :: ks, h => by
      cases hq : (p.process t first k).2.outcome with
      | error e =>
          rw [processAll_cons_error hq, Except.error.injEq] at h
          exact ⟨k, List.mem_cons_self, (process_eq_score_fault_iff.mp (h ▸ hq)).2.2⟩
      | ok q =>
          rw [processAll_cons_ok hq] at h
          dsimp only at h
          cases hrest : (p.processAll (p.process t first k).1 (first + 1) ks).2 with
          | ok qs =>
              rw [hrest] at h
              cases h
          | error e =>
              rw [hrest] at h
              obtain ⟨m, hm, hscore⟩ := exists_of_processAll_eq_score_fault
                (hrest.trans (congrArg Except.error (Except.error.inj h)))
              exact ⟨m, List.mem_cons_of_mem _ hm, hscore⟩

/-! ### Batches -/

theorem outcome_processBatch (ks : List Linkage) :
    (p.processBatch t ks).2.outcome = (p.processAll t 0 ks).2.map fun qs =>
      .ofArrivals p.options qs (qs.filterMap Processed.candidate?) := by
  unfold processBatch
  dsimp only
  cases (p.processAll t 0 ks).2 <;> rfl

theorem exists_make_eq_ok {o : Options} (usable : o.fault? = none) (rules : RuleSet)
    (labelRule : LabelRule) :
    ∃ p, make rules o labelRule = .ok p ∧ p.rules = rules ∧ p.options = o ∧
      p.labelRule = labelRule := by
  refine ⟨⟨rules, o, labelRule, usable⟩, ?_, rfl, rfl, rfl⟩
  unfold make
  split
  · next fault hfault =>
    rw [usable] at hfault
    cases hfault
  · rfl

/-- Scoring fails for one reason. With usable options it fails exactly where
terms of the cost clash, which takes a disjunct cost below zero; in a
processor it fails at such linkages only, once they are labeled and found to
be well formed, and a batch fails to score only if it has one. -/
theorem scoring_fails_iff_termsClash {o : Options} (usable : o.fault? = none) :
    (∀ k : Linkage, k.IsSized →
      (¬ k.TermsClash o → ∃ s, k.score o = .ok s) ∧
      (k.TermsClash o → k.score o = .error (.cost .notANumber)) ∧
      (k.cost.isBelowZero = false → ¬ k.TermsClash o)) ∧
    ∀ rules labelRule, ∃ p, make rules o labelRule = .ok p ∧
      (∀ t index (k : Linkage) fault, k.IsSized →
        ((p.process t index k).2.outcome = .error (.score fault) ↔
          (∀ l ∈ k.links, labelRule.AgreesOn l) ∧
          (k.deriveLabels labelRule t).linkage.analyze rules = .ok .wellFormed ∧
          k.TermsClash o ∧ fault = .cost .notANumber)) ∧
      ∀ t (ks : List Linkage) fault, (∀ k ∈ ks, k.IsSized) →
        (p.processBatch t ks).2.outcome = .error (.score fault) →
          fault = .cost .notANumber ∧ ∃ k ∈ ks, k.TermsClash o := by
  refine ⟨fun k sized => ?_, fun rules labelRule => ?_⟩
  · exact ⟨k.score_eq_ok usable sized, k.score_eq_error usable sized,
      k.not_termsClash_of_nonneg usable⟩
  · obtain ⟨p, hp, rfl, rfl, rfl⟩ := exists_make_eq_ok usable rules labelRule
    refine ⟨p, hp, fun t index k fault sized => ?_, fun t ks fault sized h => ?_⟩
    · rw [process_eq_score_fault_iff, Linkage.score_eq_error_iff usable sized,
        and_comm (a := fault = _)]
    · rw [outcome_processBatch] at h
      cases hall : (p.processAll t 0 ks).2 with
      | ok qs =>
          rw [hall] at h
          cases h
      | error e =>
          rw [hall] at h
          obtain ⟨k, hk, hscore⟩ := exists_of_processAll_eq_score_fault
            (hall.trans (congrArg Except.error (Except.error.inj h)))
          obtain ⟨hfault, hclash⟩ := (Linkage.score_eq_error_iff usable (sized k hk)).mp hscore
          exact ⟨hfault, k, hk, hclash⟩

/-- The two null words of `farBelowZero` have no score under weights that can
be used, and a processor without rules ends with the fault. -/
theorem scoring_fails_farBelowZero : Sample.heavyWeights.fault? = none ∧
    Sample.farBelowZero.IsSized ∧
    Sample.farBelowZero.score Sample.heavyWeights = .error (.cost .notANumber) ∧
    ∃ p, make ⟨[], []⟩ Sample.heavyWeights .subscriptIntersection = .ok p ∧
      (p.process (.empty 0) 0 Sample.farBelowZero).2.outcome
        = .error (.score (.cost .notANumber)) := by
  obtain ⟨hscore, hprocessor⟩ := scoring_fails_iff_termsClash Sample.usable_heavyWeights
  refine ⟨Sample.usable_heavyWeights, Sample.isSized_farBelowZero, ?_, ?_⟩
  · exact (hscore _ Sample.isSized_farBelowZero).2.1 Sample.termsClash_farBelowZero
  · obtain ⟨p, hp, hprocess, -⟩ := hprocessor ⟨[], []⟩ .subscriptIntersection
    refine ⟨p, hp, (hprocess _ _ _ _ Sample.isSized_farBelowZero).mpr ⟨nofun, ?_, ?_, rfl⟩⟩
    · decide +kernel
    · exact Sample.termsClash_farBelowZero

end Processor

end LinkParse
