import LinkParse.Proofs.Numbering
import LinkParse.Search.Walk

/-!
# Walks through tables that fit together

On tables that fit together no look-up of a walk fails, whatever its manner:
a turn does what a step of `Search.Numbering` does with the words that the
walk passes, up to its goal (`Walk.step_eq`). The marks are at any time those
of the words that have been in the queue, and each word has been there once
(`Walk.IsSound`). So a walk ends after no more turns than there are words, and
what is to be shown of its end is shown turn by turn (`Walk.IsSound.exists_run`).
-/

namespace LinkParse

namespace Search

variable {α : Type} {m : Manner} {t : Tables} {s : Walk} {words word : Nat}

/-! ## Look-ups that succeed -/

theorem lookUp_of_lt {xs : List α} {i : Nat} (h : i < xs.length) : lookUp xs i = .ok xs[i] :=
  lookUp_eq_ok_iff.mpr (List.getElem?_eq_getElem h)

/-- Tables that fit together: there is a row for each word, its links have arcs,
and the arcs end within the sentence. -/
structure Tables.Fits (t : Tables) (words : Nat) : Prop where
  length_linksAt : t.linksAt.length = words
  lt_length_arcs : ∀ row ∈ t.linksAt, ∀ i ∈ row, i < t.arcs.length
  right_lt : ∀ a ∈ t.arcs, a.right < words

theorem Tables.Fits.otherEnd_lt (ht : t.Fits words) {a : Arc} (ha : a ∈ t.arcs) :
    a.otherEnd word < words := by
  have hright := ht.right_lt a ha
  have hleft := a.left_lt_right
  unfold Arc.otherEnd
  split <;> omega

/-! ## What a turn does -/

/-- The words at the other ends of links, in the order of the links. -/
def Manner.passes (m : Manner) (arcs : List Arc) (word : Nat) (links : List Nat) : List Nat :=
  (links.filter (m.without? ≠ some ·)).filterMap fun i => arcs[i]?.map (·.otherEnd word)

/-- Of words that are passed, those that a walk comes to before its goal and
that are not out of bounds. -/
def Manner.enters (m : Manner) (passed : List Nat) : List Nat :=
  (passed.takeWhile (m.goal? ≠ some ·)).filter (!m.bars ·)

section

variable {arcs : List Arc} {link v : Nat} {links passed : List Nat}

theorem Manner.passes_cons_of_without (h : m.without? = some link) :
    m.passes arcs word (link :: links) = m.passes arcs word links := by
  simp [Manner.passes, h]

theorem Manner.passes_cons {a : Arc} (h : m.without? ≠ some link) (ha : arcs[link]? = some a) :
    m.passes arcs word (link :: links) = a.otherEnd word :: m.passes arcs word links := by
  simp [Manner.passes, h, ha]

theorem Manner.enters_cons_of_goal (h : m.goal? = some v) : m.enters (v :: passed) = [] := by
  simp [Manner.enters, h]

theorem Manner.enters_cons_of_bars (hgoal : m.goal? ≠ some v) (h : m.bars v = true) :
    m.enters (v :: passed) = m.enters passed := by
  simp [Manner.enters, hgoal, h]

theorem Manner.enters_cons (hgoal : m.goal? ≠ some v) (h : m.bars v = false) :
    m.enters (v :: passed) = v :: m.enters passed := by
  simp [Manner.enters, hgoal, h]

end

namespace Walk

/-- The marks and the queue, as a numbering has them. -/
def numbering (s : Walk) : Numbering := ⟨s.marks, s.queue⟩

/-- The walk with the marks and the queue of a numbering. -/
def withNumbering (s : Walk) (n : Numbering) : Walk :=
  { s with marks := n.numbers, queue := n.queue }

@[simp] theorem queue_numbering (s : Walk) : s.numbering.queue = s.queue := rfl

@[simp] theorem numbering_withNumbering (s : Walk) (n : Numbering) :
    (s.withNumbering n).numbering = n := rfl

@[simp] theorem withNumbering_withNumbering (s : Walk) (n n' : Numbering) :
    (s.withNumbering n).withNumbering n' = s.withNumbering n' := rfl

@[simp] theorem withNumbering_numbering (s : Walk) : s.withNumbering s.numbering = s := rfl

/-- The walk after a word has entered its queue. -/
def entering (mark : Nat) (s : Walk) (word : Nat) : Walk :=
  { s with marks := s.marks.set word (some mark), queue := s.queue ++ [word] }

theorem enter_eq {mark : Nat} (hfree : s.marks[word]? = some none) :
    s.enter mark word = .ok (s.entering mark word) := by
  obtain ⟨hlt, -⟩ := List.getElem?_eq_some_iff.mp hfree
  unfold enter replace
  rw [if_pos hlt]
  rfl

/-- To enter words without a mark only is to visit them. -/
theorem withNumbering_visit {mark : Nat} (hfree : s.marks[word]? = some none) :
    s.withNumbering (s.numbering.visit mark word) = s.entering mark word :=
  congrArg s.withNumbering (Numbering.visit_of_none hfree)

theorem reach_eq (hword : word < s.marks.length) : s.reach m word =
    .ok (if m.goal? = some word then { s with arrived := true }
      else if m.bars word then s else s.withNumbering (s.numbering.visit m.mark word)) := by
  unfold reach
  split
  · rfl
  · split
    · rfl
    · rw [lookUp_of_lt hword, ok_bind]
      cases hmark : s.marks[word] with
      | none =>
          have hfree : s.marks[word]? = some none := by rw [List.getElem?_eq_getElem hword, hmark]
          rw [withNumbering_visit hfree]
          exact enter_eq hfree
      | some mark =>
          have hmarked : s.numbering.numbers[word]? = some (some mark) := by
            rw [← hmark]
            exact List.getElem?_eq_getElem hword
          rw [Numbering.visit_of_some hmarked]
          rfl

/-- The walk after it has passed words, up to its goal. -/
def pass (m : Manner) (s : Walk) (passed : List Nat) : Walk :=
  { s.withNumbering ((m.enters passed).foldl (Numbering.visit m.mark) s.numbering) with
    arrived := passed.any (m.goal? == some ·) }

/-- Following links one by one passes the words at their other ends. -/
theorem followAll_eq {arcs : List Arc} {n : Nat} : ∀ {links : List Nat} {s : Walk},
    (∀ i ∈ links, ∃ a, arcs[i]? = some a ∧ a.otherEnd word < n) → s.marks.length = n →
      s.arrived = false →
        followAll m arcs word links s = .ok (s.pass m (m.passes arcs word links))
  | [], ⟨marks, queue, taken, arrived⟩, _, _, harrived => by
      obtain rfl : arrived = false := harrived
      rfl
  | link :: links, s, hlinks, hmarks, harrived => by
      rw [List.forall_mem_cons] at hlinks
      obtain ⟨⟨a, ha, hlt⟩, hlinks⟩ := hlinks
      unfold followAll follow
      by_cases hwithout : m.without? = some link
      · rw [if_pos hwithout, ok_bind, if_neg (by simp [harrived]),
          followAll_eq hlinks hmarks harrived, Manner.passes_cons_of_without hwithout]
      · rw [if_neg hwithout, lookUp_eq_ok_iff.mpr ha, ok_bind, reach_eq (hmarks ▸ hlt), ok_bind,
          Manner.passes_cons hwithout ha]
        by_cases hgoal : m.goal? = some (a.otherEnd word)
        · rw [if_pos hgoal, if_pos rfl]
          simp [pass, Manner.enters_cons_of_goal hgoal, hgoal, pure_eq_ok]
        · rw [if_neg hgoal]
          cases hbars : m.bars (a.otherEnd word) with
          | true =>
              rw [if_pos rfl, if_neg (by simp [harrived]), followAll_eq hlinks hmarks harrived]
              simp [pass, Manner.enters_cons_of_bars hgoal hbars, hgoal]
          | false =>
              have hlength := Numbering.length_numbers_visit m.mark s.numbering (a.otherEnd word)
              rw [if_neg Bool.false_ne_true, if_neg (by simp [withNumbering, harrived]),
                followAll_eq (s := s.withNumbering _) hlinks (hlength.trans hmarks) harrived]
              simp [pass, Manner.enters_cons hgoal hbars, hgoal]

/-- The walk after the front word has left the queue and the words at the other
ends of its links have been passed. -/
def turned (m : Manner) (arcs : List Arc) (s : Walk) (word : Nat) (queue links : List Nat) :
    Walk :=
  pass m { s with queue, taken := s.taken ++ [word] } (m.passes arcs word links)

theorem step_eq (ht : t.Fits words) (hmarks : s.marks.length = words) (harrived : s.arrived = false)
    {queue : List Nat} (hqueue : s.queue = word :: queue) (hword : word < words) :
    ∃ links, t.linksAt[word]? = some links ∧
      s.step m t = .ok (s.turned m t.arcs word queue links) := by
  have hlt : word < t.linksAt.length := ht.length_linksAt ▸ hword
  refine ⟨t.linksAt[word], List.getElem?_eq_getElem hlt, ?_⟩
  unfold step
  rw [hqueue]
  dsimp only
  rw [lookUp_of_lt hlt, ok_bind]
  refine followAll_eq (fun i hi => ?_) hmarks harrived
  have hi := ht.lt_length_arcs _ (List.getElem_mem hlt) i hi
  exact ⟨t.arcs[i], List.getElem?_eq_getElem hi, ht.otherEnd_lt (List.getElem_mem hi)⟩

/-! ## What holds throughout a walk -/

/-- The words that have been in the queue, in the order in which they entered
it. -/
def entered (s : Walk) : List Nat := s.taken ++ s.queue

/-- Taking the front word off the queue takes nothing from the words that have
been there. -/
theorem entered_take {queue : List Nat} (hqueue : s.queue = word :: queue) :
    entered { s with queue, taken := s.taken ++ [word] } = s.entered := by
  simp [entered, hqueue]

/-- No word has entered the queue twice, and the words with a mark are those
that have entered it. -/
structure IsSound (words : Nat) (s : Walk) : Prop where
  length_marks : s.marks.length = words
  nodup_entered : s.entered.Nodup
  marked_iff : ∀ w, (∃ mark, s.marks[w]? = some (some mark)) ↔ w ∈ s.entered

theorem IsSound.lt_words (hs : s.IsSound words) {w : Nat} (hw : w ∈ s.entered) : w < words := by
  obtain ⟨mark, hmark⟩ := (hs.marked_iff w).mpr hw
  rw [← hs.length_marks]
  exact (List.getElem?_eq_some_iff.mp hmark).1

/-- The words that have left the queue are different words of the sentence. -/
theorem IsSound.length_taken_le (hs : s.IsSound words) : s.taken.length ≤ words := by
  have hsub : s.entered ⊆ List.range words := fun w hw => List.mem_range.mpr (hs.lt_words hw)
  have hlength := (List.subperm_of_subset hs.nodup_entered hsub).length_le
  rw [List.length_range, entered, List.length_append] at hlength
  omega

/-- A word of the sentence that has not been in the queue has no mark. -/
theorem IsSound.getElem?_marks (hs : s.IsSound words) {w : Nat} (hw : w < words)
    (hnew : w ∉ s.entered) : s.marks[w]? = some none := by
  have hlt : w < s.marks.length := hs.length_marks ▸ hw
  rw [List.getElem?_eq_getElem hlt]
  cases hmark : s.marks[w] with
  | none => rfl
  | some mark =>
      have hmarked : s.marks[w]? = some (some mark) := by rw [List.getElem?_eq_getElem hlt, hmark]
      exact absurd ((hs.marked_iff w).mp ⟨mark, hmarked⟩) hnew

/-- What holds of a walk that has come to its end. -/
structure HasEnded (words : Nat) (s : Walk) : Prop where
  length_marks : s.marks.length = words
  /-- No word has entered the queue twice, and none from beyond the sentence. -/
  nodup_entered : s.entered.Nodup
  lt_words : ∀ w ∈ s.entered, w < words
  /-- There have been no more turns than words. -/
  length_taken_le : s.taken.length ≤ words
  ended : s.arrived = true ∨ s.queue = []

theorem IsSound.hasEnded (hs : s.IsSound words) (h : s.arrived = true ∨ s.queue = []) :
    s.HasEnded words :=
  ⟨hs.length_marks, hs.nodup_entered, fun _ => hs.lt_words, hs.length_taken_le, h⟩

theorem isSound_idle (ht : t.Fits words) : t.idle.IsSound words where
  length_marks := by
    unfold Tables.idle
    rw [List.length_replicate, ht.length_linksAt]
  nodup_entered := List.nodup_nil
  marked_iff w := by simp [Tables.idle, entered, List.getElem?_replicate]

theorem entered_entering (mark : Nat) (s : Walk) (w : Nat) :
    (s.entering mark w).entered = s.entered ++ [w] := (List.append_assoc ..).symm

/-- A word that enters the queue had no mark, so it has not been there. -/
theorem IsSound.entering (hs : s.IsSound words) {mark w : Nat} (hfree : s.marks[w]? = some none) :
    (s.entering mark w).IsSound words := by
  have hnew : w ∉ s.entered := by
    intro hw
    obtain ⟨_, hmark⟩ := (hs.marked_iff w).mpr hw
    rw [hfree] at hmark
    cases hmark
  refine ⟨List.length_set.trans hs.length_marks, ?_, fun v => ?_⟩
  · rw [entered_entering]
    exact List.concat_eq_append ▸ hs.nodup_entered.concat hnew
  · rw [entered_entering, List.mem_append, List.mem_singleton, ← hs.marked_iff]
    show (∃ n, (s.marks.set w (some mark))[v]? = some (some n)) ↔ _
    rw [Numbering.getElem?_set hfree]
    by_cases hv : v = w <;> simp [hv]

theorem IsSound.visit (hs : s.IsSound words) (mark w : Nat) :
    (s.withNumbering (s.numbering.visit mark w)).IsSound words := by
  by_cases hfree : s.marks[w]? = some none
  · rw [withNumbering_visit hfree]
    exact hs.entering hfree
  · have hstay : s.numbering.visit mark w = s.numbering := if_neg hfree
    rwa [hstay]

theorem IsSound.foldl_visit {s : Walk} (hs : s.IsSound words) (mark : Nat) : ∀ ws : List Nat,
    (s.withNumbering (ws.foldl (Numbering.visit mark) s.numbering)).IsSound words
  | [] => hs
  | w :: ws => (hs.visit mark w).foldl_visit mark ws

theorem IsSound.pass (hs : s.IsSound words) (passed : List Nat) :
    (s.pass m passed).IsSound words := by
  have hvisited := hs.foldl_visit m.mark (m.enters passed)
  exact ⟨hvisited.length_marks, hvisited.nodup_entered, hvisited.marked_iff⟩

theorem IsSound.take (hs : s.IsSound words) {queue : List Nat} (hqueue : s.queue = word :: queue) :
    IsSound words { s with queue, taken := s.taken ++ [word] } where
  length_marks := hs.length_marks
  nodup_entered := (entered_take hqueue).symm ▸ hs.nodup_entered
  marked_iff := (entered_take hqueue).symm ▸ hs.marked_iff

/-- A turn of a sound walk succeeds and keeps it sound. -/
theorem IsSound.exists_step (hs : s.IsSound words) (ht : t.Fits words)
    (harrived : s.arrived = false) {queue : List Nat} (hqueue : s.queue = word :: queue) :
    ∃ links, t.linksAt[word]? = some links ∧
      s.step m t = .ok (s.turned m t.arcs word queue links) ∧
      (s.turned m t.arcs word queue links).IsSound words := by
  have hword : word < words := hs.lt_words (by simp [entered, hqueue])
  obtain ⟨links, hlinks, hstep⟩ := step_eq ht hs.length_marks harrived hqueue hword
  exact ⟨links, hlinks, hstep, (hs.take hqueue).pass _⟩

/-! ## Whole walks -/

theorem run_of_step (harrived : s.arrived = false) (hqueue : s.queue ≠ []) {s' : Walk}
    (hstep : s.step m t = .ok s') : s.run m t = s'.run m t := by
  rw [run, if_neg (by simp [harrived, hqueue])]
  split
  · next h => cases hstep.symm.trans h
  · next h => rw [Except.ok.inj (hstep.symm.trans h)]

theorem run_of_ended (h : s.arrived = true ∨ s.queue = []) : s.run m t = .ok s := by
  rw [run, if_pos (by simpa using h)]

/-- A walk on tables that fit together comes to an end, after no more turns than
its load. Of a walk and its end it shows what holds of a walk that has ended and
itself, and what goes back from the walk behind a turn to the walk before it. -/
theorem IsSound.exists_run (ht : t.Fits words) {motive : Nat → Walk → Walk → Prop}
    (hend : ∀ n s, s.arrived = true ∨ s.queue = [] → motive n s s)
    (hturn : ∀ n s r word queue links, s.IsSound words → s.arrived = false →
      s.queue = word :: queue → t.linksAt[word]? = some links →
        motive n (s.turned m t.arcs word queue links) r → motive (n + 1) s r) :
    ∀ (n : Nat) {s : Walk}, s.IsSound words → s.load ≤ n → ∃ r, s.run m t = .ok r ∧
      r.IsSound words ∧ (r.arrived = true ∨ r.queue = []) ∧ motive n s r := by
  intro n
  induction n with
  | zero =>
      intro s hs hload
      have hempty : s.queue = [] := by
        unfold load at hload
        exact List.length_eq_zero_iff.mp (by omega)
      exact ⟨s, run_of_ended (.inr hempty), hs, .inr hempty, hend 0 s (.inr hempty)⟩
  | succ n ih =>
      intro s hs hload
      by_cases hended : s.arrived = true ∨ s.queue = []
      · exact ⟨s, run_of_ended hended, hs, hended, hend (n + 1) s hended⟩
      · obtain ⟨harrived, hqueue⟩ := not_or.mp hended
        obtain ⟨word, queue, hcons⟩ := List.exists_cons_of_ne_nil hqueue
        rw [Bool.not_eq_true] at harrived
        obtain ⟨links, hlinks, hstep, hsound⟩ := hs.exists_step (m := m) ht harrived hcons
        -- a turn takes one off the load, so the bound is kept for the rest
        have hless := load_step hqueue hstep
        obtain ⟨r, hrun, hr, hrended, hmotive⟩ := ih hsound (by omega)
        exact ⟨r, (run_of_step harrived hqueue hstep).trans hrun, hr, hrended,
          hturn n s r word queue links hs harrived hcons hlinks hmotive⟩

end Walk

end Search

end LinkParse
