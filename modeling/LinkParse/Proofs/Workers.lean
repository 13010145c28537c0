import LinkParse.Proofs.Lists
import LinkParse.Proofs.Report
import Mathlib.Algebra.GroupWithZero.Nat

/-!
# Batches on several workers

The linkages of a batch may be processed at the same time. Each has a worker
of its own; the workers share the label table and the list of candidates
submitted so far, and a schedule says which worker takes the next step
(`Batch.run`). A step is what no other worker can come between: to intern one
text, or to judge the labeled linkage and submit its candidate.

Whatever the schedule, no worker's answer depends on the others
(`IsSound.step`, `IsSound.run`). So batches that end all end with one report,
which is that of the run in list order, and every batch that has not ended
can still do so (`exists_run_isComplete`).
-/

namespace LinkParse

/-! ## Labels one by one -/

namespace Linkage

theorem map_bare_modify (links : List Link) (i : Nat) (a : Label) :
    (links.modify i (·.withLabel a)).map Link.bare = links.map Link.bare := by
  refine List.ext_getElem? fun j => ?_
  rw [List.getElem?_map, List.getElem?_modify, List.getElem?_map, Option.map_eq_map,
    Option.map_map]
  congr 1
  funext l
  rw [Function.comp_apply]
  split <;> rfl

/-- The linkage with a label on one of its links. -/
def setLabel (k : Linkage) (i : Nat) (a : Label) : Linkage :=
  k.relabel _ (map_bare_modify k.links i a)

theorem getElem?_setLabel (k : Linkage) (i : Nat) (a : Label) (j : Nat) :
    (k.setLabel i a).links[j]? =
      k.links[j]?.map fun l => if i = j then l.withLabel a else l :=
  List.getElem?_modify ..

theorem size_setLabel (k : Linkage) (i : Nat) (a : Label) : (k.setLabel i a).size = k.size :=
  List.length_modify ..

/-- `m` is the linkage `k` with the labels of the rule on its first links, all
of which stand in the table. -/
structure IsLabeledUpTo (rule : LabelRule) (t : LabelTable) (k : Linkage) (n : Nat) (m : Linkage) :
    Prop where
  words_eq : m.words = k.words
  cost_eq : m.cost = k.cost
  spelling_eq : ∀ j, m.links[j]?.map Link.spelling =
    k.links[j]?.map fun l => if j < n then rule.spell l else l.spelling
  standsIn : ∀ j < n, ∀ l ∈ m.links[j]?, ∀ a ∈ l.label, a.StandsIn t

variable {rule : LabelRule} {t u : LabelTable} {k m : Linkage} {n : Nat} {l : Link}

theorem isLabeledUpTo_zero (rule : LabelRule) (t : LabelTable) (k : Linkage) :
    IsLabeledUpTo rule t k 0 k :=
  ⟨rfl, rfl, fun j => by simp, nofun⟩

/-- Labels change nothing about a link that a rule looks at. -/
theorem IsLabeledUpTo.exists_bare_eq (h : IsLabeledUpTo rule t k n m) {j : Nat}
    (hl : m.links[j]? = some l) : ∃ l', k.links[j]? = some l' ∧ l'.bare = l.bare := by
  have hj := h.spelling_eq j
  rw [hl, Option.map_some, eq_comm, Option.map_eq_some_iff] at hj
  obtain ⟨l', hl', hspelling⟩ := hj
  refine ⟨l', hl', ?_⟩
  have hfst := congrArg Prod.fst hspelling
  split at hfst
  · exact hfst
  · exact hfst

theorem IsLabeledUpTo.mono {texts : List String} (h : IsLabeledUpTo rule t k n m)
    (hgrows : t.GrowsBy texts u) : IsLabeledUpTo rule u k n m :=
  ⟨h.words_eq, h.cost_eq, h.spelling_eq,
    fun j hj l hl a ha => hgrows.standsIn (h.standsIn j hj l hl a ha)⟩

theorem IsLabeledUpTo.setLabel {a : Label} (h : IsLabeledUpTo rule t k n m)
    (hl : m.links[n]? = some l) (htext : a.text = rule.textOf l) (ha : a.StandsIn t) :
    IsLabeledUpTo rule t k (n + 1) (m.setLabel n a) := by
  refine ⟨h.words_eq, h.cost_eq, fun j => ?_, fun j hj l' hl' b hb => ?_⟩
  · rw [getElem?_setLabel, Option.map_map]
    rcases Nat.lt_trichotomy j n with hlt | rfl | hgt
    · have hj := h.spelling_eq j
      simp only [if_pos hlt] at hj
      simp only [if_pos (Nat.lt_succ_of_lt hlt), Function.comp_def, if_neg hlt.ne', hj]
    · obtain ⟨l', hl', hbare⟩ := h.exists_bare_eq hl
      rw [hl, hl']
      simp only [Option.map_some, Function.comp_apply, if_pos, Nat.lt_add_one,
        Link.spelling_withLabel, LabelRule.spell, hbare, htext, rule.textOf_of_bare_eq hbare]
    · have hj := h.spelling_eq j
      simp only [if_neg hgt.not_gt] at hj
      simp only [if_neg (show ¬ j < n + 1 by omega), Function.comp_def, if_neg hgt.ne, hj]
  · rw [getElem?_setLabel, Option.mem_def, Option.map_eq_some_iff] at hl'
    obtain ⟨l'', hl'', rfl⟩ := hl'
    split at hb
    · obtain rfl := Option.mem_some_iff.mp hb
      exact ha
    · exact h.standsIn j (by omega) l'' hl'' b hb

/-- Past the last link every label stands in the table. -/
theorem IsLabeledUpTo.standsIn_all (h : IsLabeledUpTo rule t k n m) (hn : m.links[n]? = none) :
    ∀ l ∈ m.links, ∀ a ∈ l.label, a.StandsIn t := by
  intro l hl
  obtain ⟨j, hj⟩ := List.mem_iff_getElem?.mp hl
  have hjn := (List.getElem?_eq_some_iff.mp hj).1.trans_le (List.getElem?_eq_none_iff.mp hn)
  exact h.standsIn j hjn l hj

/-- Past the last link the whole linkage has its labels. -/
theorem IsLabeledUpTo.isLabeledBy (h : IsLabeledUpTo rule t k n m) (hn : m.links[n]? = none) :
    IsLabeledBy rule k m := by
  refine ⟨h.words_eq, h.cost_eq, List.ext_getElem? fun j => ?_⟩
  rw [List.getElem?_map, List.getElem?_map, h.spelling_eq]
  by_cases hj : j < n
  · simp only [if_pos hj]
  · have hnone : k.links[j]? = none := by
      have hmj : m.links[j]? = none := by
        rw [List.getElem?_eq_none_iff] at hn ⊢
        omega
      have hj' := h.spelling_eq j
      rw [hmj, Option.map_none, eq_comm, Option.map_eq_none_iff] at hj'
      exact hj'
    rw [hnone]
    rfl

end Linkage

/-! ## Workers -/

/-- How far a worker has come: it has labeled the first links of its linkage,
or it has ended. -/
inductive Worker where
  | labeling (linkage : Linkage) (labeled : Nat)
  | finished (outcome : Except Fault Processed)

namespace Worker

def answer? : Worker → Option Processed
  | finished (.ok q) => some q
  | _ => none

def candidate? (w : Worker) : Option Candidate := w.answer?.bind Processed.candidate?

def isFinished : Worker → Bool
  | finished _ => true
  | labeling _ _ => false

/-- The steps that a worker has to take: one for each link without its label,
and one to judge. -/
def todo : Worker → Nat
  | labeling k n => k.size - n + 1
  | finished _ => 0

@[simp] theorem candidate?_labeling (k : Linkage) (n : Nat) :
    (labeling k n).candidate? = none := rfl

@[simp] theorem todo_labeling (k : Linkage) (n : Nat) : (labeling k n).todo = k.size - n + 1 := rfl

/-- The worker is on its way to the answer to the linkage `k`. -/
def IsSound (p : Processor) (t : LabelTable) (index : Nat) (k : Linkage) : Worker → Prop
  | labeling m n => Linkage.IsLabeledUpTo p.labelRule t k n m
  | finished outcome => ∃ q, outcome = .ok q ∧ p.Answers index k q ∧ q.StandsIn t

theorem IsSound.mono {p : Processor} {t u : LabelTable} {index : Nat} {k : Linkage}
    {texts : List String} (hgrows : t.GrowsBy texts u) :
    ∀ {w : Worker}, w.IsSound p t index k → w.IsSound p u index k
  | labeling _ _, h => Linkage.IsLabeledUpTo.mono h hgrows
  | finished _, ⟨q, hq, hanswer, hstands⟩ => ⟨q, hq, hanswer, hstands.mono hgrows⟩

end Worker

/-! ## Batches -/

structure Batch where
  table : LabelTable
  workers : List Worker
  arrivals : List Candidate

namespace Batch

def start (t : LabelTable) (ks : List Linkage) : Batch := ⟨t, ks.map (.labeling · 0), []⟩

/-- A worker ends, and submits the candidate that it has come to. -/
def finish (b : Batch) (i : Nat) (outcome : Except Fault Processed) : Batch :=
  { b with
    workers := b.workers.set i (.finished outcome)
    arrivals := b.arrivals ++ (Worker.finished outcome).candidate?.toList }

/-- The next step of a worker. There is none once it has ended. -/
def step (p : Processor) (b : Batch) (i : Nat) : Batch :=
  match b.workers[i]? with
  | some (.labeling k n) =>
    match k.links[n]? with
    | some l =>
      if p.labelRule.agrees l.leftConnector l.rightConnector then
        let (table, label) := b.table.intern (p.labelRule.textOf l)
        { b with table, workers := b.workers.set i (.labeling (k.setLabel n label) (n + 1)) }
      else b.finish i (.error (.mismatch ⟨l⟩))
    | none => b.finish i (p.judge i k).outcome
  | _ => b

/-- The batch after the steps of a schedule. -/
def run (p : Processor) (b : Batch) (schedule : List Nat) : Batch := schedule.foldl (step p) b

/-- All workers have ended. -/
def IsComplete (b : Batch) : Prop := b.workers.all Worker.isFinished = true

instance (b : Batch) : Decidable b.IsComplete := inferInstanceAs (Decidable (_ = _))

def report (b : Batch) (o : Options) : BatchReport :=
  .ofArrivals o (b.workers.filterMap Worker.answer?) b.arrivals

variable {p : Processor} {t : LabelTable} {ks : List Linkage} {b c : Batch} {i : Nat}

/-! ### Steps -/

/-- What a step can be. -/
inductive Steps (p : Processor) (b : Batch) (i : Nat) : Batch → Prop where
  | idle (hidle : ∀ k n, b.workers[i]? ≠ some (.labeling k n)) : Steps p b i b
  | label {k : Linkage} {n : Nat} {l : Link} (hworker : b.workers[i]? = some (.labeling k n))
      (hlink : k.links[n]? = some l) (hagrees : p.labelRule.AgreesOn l) :
      Steps p b i ⟨b.table.insert (p.labelRule.textOf l),
        b.workers.set i (.labeling
          (k.setLabel n (b.table.intern (p.labelRule.textOf l)).2) (n + 1)), b.arrivals⟩
  | mismatch {k : Linkage} {n : Nat} {l : Link} (hworker : b.workers[i]? = some (.labeling k n))
      (hlink : k.links[n]? = some l) (hagrees : ¬ p.labelRule.AgreesOn l) :
      Steps p b i (b.finish i (.error (.mismatch ⟨l⟩)))
  | judge {k : Linkage} {n : Nat} (hworker : b.workers[i]? = some (.labeling k n))
      (hlink : k.links[n]? = none) : Steps p b i (b.finish i (p.judge i k).outcome)

theorem steps_step (p : Processor) (b : Batch) (i : Nat) : Steps p b i (b.step p i) := by
  unfold step
  split
  · next k n hworker =>
    split
    · next l hlink =>
      split
      · next hagrees => exact .label hworker hlink hagrees
      · next hagrees => exact .mismatch hworker hlink hagrees
    · next hlink => exact .judge hworker hlink
  · next hidle => exact .idle hidle

/-- What holds of a batch at any time: each worker is on its way to the answer
to its own linkage, the table has grown by texts of the linkages only, and
the candidates that have arrived are those of the answers. -/
structure IsSound (p : Processor) (t : LabelTable) (ks : List Linkage) (b : Batch) : Prop where
  length_eq : b.workers.length = ks.length
  workers : ∀ {i : Nat} {k : Linkage} {w : Worker}, ks[i]? = some k → b.workers[i]? = some w →
    w.IsSound p b.table i k
  id_eq : b.table.id = t.id
  kept : t.texts <+: b.table.texts
  grown : ∀ s ∈ b.table.texts, s ∈ t.texts ∨ s ∈ p.textsOf ks
  arrivals : b.arrivals.Perm (b.workers.filterMap Worker.candidate?)

theorem isSound_start (p : Processor) (t : LabelTable) (ks : List Linkage) :
    IsSound p t ks (start t ks) where
  length_eq := List.length_map _
  workers {i k w} hk hw := by
    rw [start, List.getElem?_map, hk] at hw
    obtain rfl := Option.some.inj hw
    exact Linkage.isLabeledUpTo_zero _ _ _
  id_eq := rfl
  kept := List.prefix_rfl
  grown _ := Or.inl
  arrivals := by
    show [].Perm ((ks.map _).filterMap _)
    rw [List.filterMap_map]
    exact List.Perm.of_eq (List.filterMap_eq_nil_iff.mpr fun _ _ => rfl).symm

/-- Of the workers after a step only one is another than before. -/
theorem IsSound.workers_set {u : LabelTable} {texts : List String} {w : Worker}
    (h : IsSound p t ks b) (hgrows : b.table.GrowsBy texts u)
    (hw : ∀ k, ks[i]? = some k → w.IsSound p u i k) {j : Nat} {k : Linkage} {w' : Worker}
    (hk : ks[j]? = some k) (hw' : (b.workers.set i w)[j]? = some w') : w'.IsSound p u j k := by
  rw [List.getElem?_set] at hw'
  split at hw'
  · next hij =>
    subst hij
    split at hw'
    · obtain rfl := Option.some.inj hw'
      exact hw k hk
    · cases hw'
  · exact (h.workers hk hw').mono hgrows

theorem IsSound.exists_linkage (h : IsSound p t ks b) {w : Worker} (hw : b.workers[i]? = some w) :
    ∃ k, ks[i]? = some k ∧ k ∈ ks ∧ w.IsSound p b.table i k := by
  have hi : i < ks.length := h.length_eq ▸ (List.getElem?_eq_some_iff.mp hw).1
  have hk := List.getElem?_eq_getElem hi
  exact ⟨_, hk, List.getElem_mem hi, h.workers hk hw⟩

/-- Ending brings in the candidate of the worker that ends. -/
theorem perm_arrivals_finish (h : b.arrivals.Perm (b.workers.filterMap Worker.candidate?))
    {k : Linkage} {n : Nat} (hworker : b.workers[i]? = some (.labeling k n))
    (outcome : Except Fault Processed) : (b.finish i outcome).arrivals.Perm
      ((b.finish i outcome).workers.filterMap Worker.candidate?) := by
  obtain ⟨before, behind, hworkers, hset⟩ := exists_eq_append_of_getElem? hworker
  rw [hworkers, List.filterMap_append,
    List.filterMap_cons_none (Worker.candidate?_labeling k n)] at h
  show (b.arrivals ++ _).Perm ((b.workers.set i _).filterMap _)
  rw [hset, List.filterMap_append, List.filterMap_cons]
  cases (Worker.finished outcome).candidate? with
  | none => simpa using h
  | some c =>
      rw [Option.toList_some]
      exact (h.append_right [c]).trans (List.append_assoc .. ▸
        (List.perm_append_comm.append_left _))

/-- A step of any worker leaves a batch sound. -/
theorem IsSound.step (handled : ∀ k ∈ ks, p.Handles k) (h : IsSound p t ks b) (i : Nat) :
    IsSound p t ks (b.step p i) := by
  have hsteps := steps_step p b i
  generalize b.step p i = c at *
  cases hsteps with
  | idle => exact h
  | @label m n l hworker hlink hagrees =>
      obtain ⟨k, hk, hmem, hsound⟩ := h.exists_linkage hworker
      obtain ⟨l', hl', hbare⟩ := hsound.exists_bare_eq hlink
      have hgrows := b.table.growsBy_insert (p.labelRule.textOf l)
      have hstands := b.table.standsIn_intern (p.labelRule.textOf l)
      refine ⟨List.length_set.trans h.length_eq, h.workers_set hgrows fun k' hk' => ?_,
        hgrows.id_eq.trans h.id_eq, h.kept.trans hgrows.kept, fun s hs => ?_, ?_⟩
      · obtain rfl := Option.some.inj (hk.symm.trans hk')
        exact (Linkage.IsLabeledUpTo.mono hsound hgrows).setLabel hlink rfl hstands
      · rcases (hgrows.mem_iff s).mp hs with hold | hnew
        · exact h.grown s hold
        · obtain rfl := List.mem_singleton.mp hnew
          have htext := p.labelRule.textOf_of_bare_eq hbare
          exact .inr (List.mem_flatMap.mpr
            ⟨k, hmem, List.mem_map.mpr ⟨l', List.mem_of_getElem? hl', htext⟩⟩)
      · -- no worker has a candidate before or after
        obtain ⟨before, behind, hworkers, hset⟩ := exists_eq_append_of_getElem? hworker
        have harrivals := h.arrivals
        rw [hworkers, List.filterMap_append,
          List.filterMap_cons_none (Worker.candidate?_labeling ..)] at harrivals
        show b.arrivals.Perm ((b.workers.set i _).filterMap _)
        rwa [hset, List.filterMap_append,
          List.filterMap_cons_none (Worker.candidate?_labeling ..)]
  | @mismatch m n l hworker hlink hagrees =>
      obtain ⟨k, -, hmem, hsound⟩ := h.exists_linkage hworker
      obtain ⟨l', hl', hbare⟩ := hsound.exists_bare_eq hlink
      have hl := (handled k hmem).agrees l' (List.mem_of_getElem? hl')
      exact absurd (hl.of_bare_eq hbare) hagrees
  | @judge m n hworker hlink =>
      obtain ⟨k, hk, hmem, hsound⟩ := h.exists_linkage hworker
      obtain ⟨q, hq, hanswer, hlinkage⟩ :=
        (handled k hmem).exists_judge_eq_ok (hsound.isLabeledBy hlink) i
      refine ⟨List.length_set.trans h.length_eq, h.workers_set (.refl _) fun k' hk' => ?_,
        h.id_eq, h.kept, h.grown, perm_arrivals_finish h.arrivals hworker _⟩
      obtain rfl := Option.some.inj (hk.symm.trans hk')
      refine ⟨q, hq, hanswer, ?_⟩
      unfold Processed.StandsIn
      rw [hlinkage]
      exact hsound.standsIn_all hlink

/-- A schedule is a sequence of steps, so it leaves a batch sound as well. -/
theorem IsSound.run (handled : ∀ k ∈ ks, p.Handles k) : ∀ {b : Batch}, IsSound p t ks b →
    ∀ schedule : List Nat, IsSound p t ks (b.run p schedule)
  | _, h, [] => h
  | _, h, i :: schedule => (h.step handled i).run handled schedule

/-! ### Batches that end -/

def todo (b : Batch) : Nat := (b.workers.map Worker.todo).sum

theorem todo_set {w w' : Worker} (h : b.workers[i]? = some w) (hlt : w'.todo < w.todo) :
    ((b.workers.set i w').map Worker.todo).sum < b.todo := by
  obtain ⟨before, behind, hworkers, hset⟩ := exists_eq_append_of_getElem? h
  rw [todo, hset, hworkers, List.map_append, List.map_append, List.sum_append, List.sum_append,
    List.map_cons, List.map_cons, List.sum_cons, List.sum_cons]
  omega

/-- A worker that has not ended can take a step, and has less to do then. -/
theorem todo_step_lt {k : Linkage} {n : Nat} (h : b.workers[i]? = some (.labeling k n)) :
    (b.step p i).todo < b.todo := by
  have hsteps := steps_step p b i
  generalize b.step p i = c at *
  cases hsteps with
  | idle hidle => exact absurd h (hidle k n)
  | label hworker hlink _ =>
      refine todo_set hworker ?_
      have hlt := (List.getElem?_eq_some_iff.mp hlink).1
      rw [Worker.todo_labeling, Worker.todo_labeling, Linkage.size_setLabel, Linkage.size]
      omega
  | mismatch hworker _ _ => exact todo_set hworker (Nat.succ_pos _)
  | judge hworker _ => exact todo_set hworker (Nat.succ_pos _)

/-- A batch can end from wherever it has come to. -/
theorem exists_run_isComplete (p : Processor) (b : Batch) :
    ∃ schedule, (b.run p schedule).IsComplete := by
  by_cases h : b.IsComplete
  · exact ⟨[], h⟩
  · obtain ⟨w, hw, hfinished⟩ : ∃ w ∈ b.workers, ¬ w.isFinished = true := by
      simpa [IsComplete] using h
    obtain ⟨i, hi⟩ := List.mem_iff_getElem?.mp hw
    cases w with
    | finished _ => exact absurd rfl hfinished
    | labeling k n =>
        have hlt := todo_step_lt (p := p) hi
        obtain ⟨schedule, hschedule⟩ := exists_run_isComplete p (b.step p i)
        exact ⟨i :: schedule, hschedule⟩
termination_by b.todo

/-! ### What batches end with -/

/-- Workers of a sound batch have ended with answers. -/
theorem IsSound.exists_eq_finished (h : IsSound p t ks b) (hcomplete : b.IsComplete) {w : Worker}
    (hw : b.workers[i]? = some w) : ∃ q, w = .finished (.ok q) ∧ q.StandsIn b.table ∧
      ∃ k, ks[i]? = some k ∧ p.Answers i k q := by
  obtain ⟨k, hk, -, hsound⟩ := h.exists_linkage hw
  cases w with
  | labeling m n =>
      have hfinished := List.all_eq_true.mp hcomplete _ (List.mem_of_getElem? hw)
      exact absurd hfinished Bool.false_ne_true
  | finished outcome =>
      obtain ⟨q, rfl, hanswer, hstands⟩ := hsound
      exact ⟨q, rfl, hstands, k, hk, hanswer⟩

theorem map_finished_answers : ∀ {ws : List Worker}, (∀ w ∈ ws, ∃ q, w = .finished (.ok q)) →
    (ws.filterMap Worker.answer?).map (fun q => .finished (.ok q)) = ws
  | [], _ => rfl
  | w :: ws, h => by
      rw [List.forall_mem_cons] at h
      obtain ⟨q, rfl⟩ := h.1
      exact congrArg (_ :: ·) (map_finished_answers h.2)

theorem IsSound.workers_eq (h : IsSound p t ks b) (hcomplete : b.IsComplete) :
    b.workers = (b.workers.filterMap Worker.answer?).map fun q => .finished (.ok q) := by
  refine (map_finished_answers fun w hw => ?_).symm
  obtain ⟨i, hi⟩ := List.mem_iff_getElem?.mp hw
  obtain ⟨q, hq, -⟩ := h.exists_eq_finished hcomplete hi
  exact ⟨q, hq⟩

theorem IsSound.answersAll (h : IsSound p t ks b) (hcomplete : b.IsComplete) :
    p.AnswersAll 0 ks (b.report p.options).processed := by
  have hworkers := h.workers_eq hcomplete
  refine ⟨?_, fun {i k q} hk hq => ?_⟩
  · rw [← h.length_eq, hworkers, List.length_map]
    rfl
  · have hq : (b.workers.filterMap Worker.answer?)[i]? = some q := hq
    have hw : b.workers[i]? = some (.finished (.ok q)) := by
      rw [hworkers, List.getElem?_map, hq]
      rfl
    obtain ⟨q', hq', -, k', hk', hanswer⟩ := h.exists_eq_finished hcomplete hw
    cases hq'
    obtain rfl := Option.some.inj (hk.symm.trans hk')
    rwa [Nat.zero_add]

theorem IsSound.isFiled_report (h : IsSound p t ks b) (hcomplete : b.IsComplete) :
    (b.report p.options).IsFiled p.options := by
  refine BatchReport.isFiled_ofArrivals (h.answersAll hcomplete) ?_
  have harrivals := h.arrivals
  rw [h.workers_eq hcomplete, List.filterMap_map] at harrivals
  exact harrivals

theorem IsSound.standsIn (h : IsSound p t ks b) (hcomplete : b.IsComplete) :
    ∀ q ∈ (b.report p.options).processed, q.StandsIn b.table := by
  intro q hq
  obtain ⟨w, hw, hanswer⟩ := List.mem_filterMap.mp hq
  obtain ⟨i, hi⟩ := List.mem_iff_getElem?.mp hw
  obtain ⟨q', rfl, hstands, -⟩ := h.exists_eq_finished hcomplete hi
  obtain rfl := Option.some.inj hanswer
  exact hstands

/-- At the end the table has the text of every link, since the link's label
stands in it. -/
theorem IsSound.growsBy (h : IsSound p t ks b) (hcomplete : b.IsComplete) :
    t.GrowsBy (p.textsOf ks) b.table := by
  refine ⟨h.id_eq, h.kept, fun s => ⟨h.grown s, ?_⟩⟩
  rintro (hold | hnew)
  · exact h.kept.subset hold
  · obtain ⟨k, hk, hs⟩ := List.mem_flatMap.mp hnew
    obtain ⟨l, hl, rfl⟩ := List.mem_map.mp hs
    obtain ⟨i, hi⟩ := List.mem_iff_getElem?.mp hk
    obtain ⟨q, hq, hanswer⟩ := (h.answersAll hcomplete).exists_answer hi
    have hspelling : p.labelRule.spell l ∈ q.linkage.links.map Link.spelling :=
      hanswer.labeled.spelling_eq ▸ List.mem_map_of_mem hl
    obtain ⟨l', hl', hspell⟩ := List.mem_map.mp hspelling
    obtain ⟨a, ha, htext⟩ := Option.map_eq_some_iff.mp (congrArg Prod.snd hspell)
    have hstands := h.standsIn hcomplete q (List.mem_of_getElem? hq) l' hl' a ha
    exact htext ▸ List.mem_of_getElem? hstands.2

/-- A batch of linkages that are handled has one report, whoever takes which
step when. The run in list order ends with it; a batch that has taken the
steps of any schedule can end, and if it has, its report is on the same
linkages, has the same ranking and differs in the entries of labels at most.
Either way the table has grown by the texts of the linkages, and the labels of
the report stand in it. -/
theorem one_report (p : Processor) (t : LabelTable) (ks : List Linkage)
    (handled : ∀ k ∈ ks, p.Handles k) :
    ∃ r, (p.processBatch t ks).2.outcome = .ok r ∧ r.IsReportOn p ks ∧
      t.GrowsBy (p.textsOf ks) (p.processBatch t ks).1 ∧
      (∀ q ∈ r.processed, q.StandsIn (p.processBatch t ks).1) ∧
      ∀ schedule, let b := (start t ks).run p schedule
        (∃ more, (b.run p more).IsComplete) ∧
        (b.IsComplete →
          (b.report p.options).IsReportOn p ks ∧
          List.Forall₂ Processed.Matches (b.report p.options).processed r.processed ∧
          (b.report p.options).ranked = r.ranked ∧
          t.GrowsBy (p.textsOf ks) b.table ∧
          ∀ q ∈ (b.report p.options).processed, q.StandsIn b.table) := by
  obtain ⟨qs, hqs, hanswers, hgrows, hstands⟩ :=
    Processor.processAll_ok t 0 handled
  have hfiled := BatchReport.isFiled_ofArrivals hanswers (List.Perm.refl _)
  refine ⟨.ofArrivals p.options qs (qs.filterMap Processed.candidate?), ?_,
    BatchReport.isReportOn handled hanswers hfiled, hgrows, hstands, fun schedule => ?_⟩
  · rw [Processor.outcome_processBatch, hqs]
    rfl
  · have hsound := (isSound_start p t ks).run handled schedule
    refine ⟨exists_run_isComplete p _, fun hcomplete => ?_⟩
    have hanswers' := hsound.answersAll hcomplete
    have hfiled' := hsound.isFiled_report hcomplete
    obtain ⟨hmatches, hranked⟩ := BatchReport.report_unique hanswers' hanswers hfiled' hfiled
    exact ⟨BatchReport.isReportOn handled hanswers' hfiled', hmatches, hranked,
      hsound.growsBy hcomplete, hsound.standsIn hcomplete⟩

end Batch

namespace Sample

/-- A processor with the usual options and label rule. -/
def checker : Processor := ⟨clauseChecks, {}, .subscriptIntersection, by decide +kernel⟩

theorem handles_clauses : ∀ k ∈ [crossing, nested], checker.Handles k := by
  have agrees : ∀ k ∈ [crossing, nested], ∀ l ∈ k.links, checker.labelRule.AgreesOn l := by
    decide +kernel
  have sized : ∀ k ∈ [crossing, nested], k.words < 2 ^ 64 ∧ k.size < 2 ^ 64 := by decide +kernel
  have hclash : ∀ k ∈ [crossing, nested], ¬ k.TermsClash checker.options := by decide +kernel
  exact fun k hk => Processor.handles_of_not_termsClash (agrees k hk)
    ⟨(sized k hk).1, (sized k hk).2⟩ (hclash k hk)

end Sample

/-- Two workers that take turns report what one after the other does: the
second sentence alone is ranked. -/
theorem Batch.one_report_clauses :
    (∀ k ∈ [Sample.crossing, Sample.nested], Sample.checker.Handles k) ∧
    ∃ r, (Sample.checker.processBatch (.empty 0) [Sample.crossing, Sample.nested]).2.outcome
        = .ok r ∧
      r.ranked.map Candidate.index = [1] ∧ r.wellFormedCount = 1 := by
  refine ⟨Sample.handles_clauses, ?_⟩
  obtain ⟨r, hr, hreport, -, -, hrun⟩ := Batch.one_report Sample.checker (.empty 0)
    [Sample.crossing, Sample.nested] Sample.handles_clauses
  obtain ⟨-, hcomplete⟩ := hrun ((List.range 16).map (· % 2))
  obtain ⟨-, -, hranked, -⟩ := hcomplete (by decide +kernel)
  have hindices : r.ranked.map Candidate.index = [1] := by
    rw [← hranked]
    decide +kernel
  have hlength : r.ranked.length = 1 := (List.length_map _).symm.trans (congrArg _ hindices)
  have hdiscarded : r.discarded Sample.checker.options = [] :=
    List.filter_eq_nil_iff.mpr fun _ _ => by simp [Sample.checker]
  refine ⟨r, hr, hindices, ?_⟩
  rw [hreport.wellFormedCount_eq, hlength, hdiscarded]
  rfl

end LinkParse
