import LinkParse.Proofs.Search

/-!
# Searches that do less

`Search.reached` goes on until it has found every word, and `Search.groups`
begins anew for each group. Two searches do less and answer the same.

A search for one word (`Search.comesTo`) ends as soon as it comes past that
word. It comes to it exactly if a path does (`comesTo_iff`): up to then it is
the full search.

The numbering of the groups (`Search.numbers`) keeps one row for all searches.
No path leads from one group into another, so each search gives its number to
its own group and to no word of the earlier ones (`Numbering.Follows.run`),
and the row holds the position of every word's group (`numbers_eq`).
-/

namespace LinkParse

namespace Search

variable {next : Nat → List Nat} {start goal words number : Nat}

/-! ## A search for one word -/

theorem Sweep.comesTo_of_queue_nil {s : Sweep} (hq : s.queue = []) :
    ∀ steps : Nat, s.comesTo next goal steps = false
  | 0 => rfl
  | steps + 1 => by rw [Sweep.comesTo, hq]

/-- A search that has not come to the word yet, and has steps left for all
other words, comes to it exactly if a path leads there. -/
theorem Sweep.Covers.comesTo_iff (hwords : ∀ w, Leads next start w → w < words) :
    ∀ (steps : Nat) {taken : List Nat} {s : Sweep}, s.Covers next start taken → goal ∉ s.found →
      words ≤ taken.length + steps → (s.comesTo next goal steps = true ↔ Leads next start goal)
  | 0, taken, s, h, hgoal, hsteps => by
      have hempty := h.queue_eq_nil hwords hsteps
      have hnot : ¬Leads next start goal := mt (h.mem_found_iff hempty).mpr hgoal
      exact iff_of_false Bool.false_ne_true hnot
  | steps + 1, taken, s, h, hgoal, hsteps => by
      unfold Sweep.comesTo
      cases hq : s.queue with
      | nil =>
          have hnot : ¬Leads next start goal := mt (h.mem_found_iff hq).mpr hgoal
          exact iff_of_false Bool.false_ne_true hnot
      | cons w queue =>
          dsimp only
          rw [Bool.or_eq_true, List.contains_iff_mem]
          by_cases hnext : goal ∈ next w
          · have hw : w ∈ s.found := by
              rw [h.found_eq, hq]
              simp
            exact iff_of_true (Or.inl hnext) ((h.leads w hw).tail hnext)
          · rw [or_iff_right hnext]
            refine (h.step hq).comesTo_iff hwords steps ?_ ?_
            · -- the step finds neighbours of `w` only
              unfold Sweep.step
              rw [hq]
              intro hmem
              rcases List.mem_append.mp hmem with hold | hnew
              · exact hgoal hold
              · exact hnext (mem_fresh.mp hnew).1
            · rw [List.length_append, List.length_singleton]
              omega

/-- The search comes to another word exactly if a path leads there. -/
theorem comesTo_iff (hwords : ∀ w, Leads next start w → w < words) (hne : goal ≠ start) :
    comesTo words next start goal = true ↔ Leads next start goal := by
  refine (Sweep.covers_start next start).comesTo_iff hwords words ?_ ?_
  · exact fun hmem => hne (List.mem_singleton.mp hmem)
  · exact Nat.le_add_left words 0

/-! ## One group -/

/-- The numbering goes along with a search that has a row of its own: it has
given the current number to the words found, and left the others alone. -/
structure Numbering.Follows (number : Nat) (old : List (Option Nat)) (s : Numbering) (t : Sweep) :
    Prop where
  queue_eq : s.queue = t.queue
  getElem?_numbers : ∀ w, s.numbers[w]? = if w ∈ t.found then some (some number) else old[w]?

variable {old : List (Option Nat)}

theorem Numbering.visit_of_some {s : Numbering} {w n : Nat}
    (hw : s.numbers[w]? = some (some n)) : s.visit number w = s := by
  unfold Numbering.visit
  rw [if_neg (by rw [hw]; simp)]

theorem Numbering.visit_of_none {s : Numbering} {w : Nat} (hw : s.numbers[w]? = some none) :
    s.visit number w = ⟨s.numbers.set w (some number), s.queue ++ [w]⟩ := by
  unfold Numbering.visit
  rw [if_pos hw]

theorem Numbering.length_numbers_visit (number : Nat) (s : Numbering) (w : Nat) :
    (s.visit number w).numbers.length = s.numbers.length := by
  unfold Numbering.visit
  split
  · exact List.length_set
  · rfl

/-- A word without a number gets it. -/
theorem Numbering.getElem?_set {numbers : List (Option Nat)} {w : Nat}
    (hw : numbers[w]? = some none) (v : Nat) : (numbers.set w (some number))[v]?
      = if v = w then some (some number) else numbers[v]? := by
  obtain ⟨hlt, -⟩ := List.getElem?_eq_some_iff.mp hw
  rw [List.getElem?_set]
  by_cases hvw : v = w
  · rw [if_pos hvw, if_pos hvw.symm, if_pos hlt]
  · rw [if_neg hvw, if_neg (Ne.symm hvw)]

/-- Visiting words that had no number before the search puts those that are
new to it into the queue, once each. -/
theorem Numbering.Follows.foldl_visit : ∀ {ws found queue : List Nat} {s : Numbering},
    s.Follows number old ⟨found, queue⟩ → (∀ w ∈ ws, old[w]? = some none) →
      (ws.foldl (visit number) s).Follows number old
        ⟨found ++ fresh found ws, queue ++ fresh found ws⟩
  | [], found, queue, s, h, _ => by simpa [fresh] using h
  | w :: ws, found, queue, s, h, hold => by
      rw [List.forall_mem_cons] at hold
      rw [List.foldl_cons, fresh]
      by_cases hw : w ∈ found
      · have hnumbers : s.numbers[w]? = some (some number) := by
          rw [h.getElem?_numbers, if_pos hw]
        rw [if_pos hw, visit_of_some hnumbers]
        exact h.foldl_visit hold.2
      · have hnumbers : s.numbers[w]? = some none := by
          rw [h.getElem?_numbers, if_neg hw, hold.1]
        have hnew : (s.visit number w).Follows number old ⟨w :: found, queue ++ [w]⟩ := by
          rw [visit_of_none hnumbers]
          refine ⟨congrArg (· ++ [w]) h.queue_eq, fun v => ?_⟩
          rw [getElem?_set hnumbers, h.getElem?_numbers]
          by_cases hvw : v = w
          · simp [hvw]
          · simp [hvw]
        obtain ⟨hqueue, hrest⟩ := hnew.foldl_visit hold.2
        rw [if_neg hw]
        refine ⟨by rw [hqueue, List.append_assoc]; rfl, fun v => ?_⟩
        have hsame : v ∈ (w :: found) ++ fresh (w :: found) ws
            ↔ v ∈ found ++ w :: fresh (w :: found) ws := by
          simp only [List.mem_append, List.mem_cons]
          tauto
        rw [hrest v]
        simp only [hsame]

theorem Numbering.run_of_queue_nil {s : Numbering} (hq : s.queue = []) :
    ∀ steps : Nat, s.run next number steps = s
  | 0 => rfl
  | steps + 1 => by
      have hstep : s.step next number = s := by rw [Numbering.step, hq]
      rw [Numbering.run, hstep, Numbering.run_of_queue_nil hq steps]

theorem Numbering.Follows.step {s : Numbering} {t : Sweep} (h : s.Follows number old t)
    (hold : ∀ u ∈ t.found, ∀ v ∈ next u, old[v]? = some none) (hqueue : t.queue ⊆ t.found) :
    (s.step next number).Follows number old (t.step next) := by
  obtain ⟨found, queue⟩ := t
  unfold Numbering.step Sweep.step
  cases queue with
  | nil =>
      rw [h.queue_eq]
      exact h
  | cons w queue =>
      rw [h.queue_eq]
      have hw : w ∈ found := hqueue (List.mem_cons_self ..)
      exact foldl_visit ⟨rfl, h.getElem?_numbers⟩ (hold w hw)

/-- As long as no path leads to a word that was numbered before, the numbering
and the search find the same words. -/
theorem Numbering.Follows.run (hold : ∀ w, Leads next start w → old[w]? = some none) :
    ∀ (steps : Nat) {taken : List Nat} {s : Numbering} {t : Sweep}, s.Follows number old t →
      t.Covers next start taken →
        (Numbering.run next number steps s).Follows number old (Sweep.run next steps t)
  | 0, _, _, _, h, _ => h
  | steps + 1, taken, s, t, h, hcovers => by
      rw [Numbering.run, Sweep.run]
      have hstep := h.step (fun u hu v hv => hold v ((hcovers.leads u hu).tail hv))
        (hcovers.found_eq ▸ List.subset_append_right _ _)
      cases hq : t.queue with
      | nil =>
          rw [Sweep.step_of_queue_nil hq] at hstep ⊢
          exact hstep.run hold steps hcovers
      | cons w queue => exact hstep.run hold steps (hcovers.step hq)

/-- A search from a word whose group has no numbers yet numbers this group. -/
theorem getElem?_numbers_run (hold : ∀ w, Leads next start w → old[w]? = some none) (w : Nat) :
    (Numbering.run next number words ⟨old.set start (some number), [start]⟩).numbers[w]?
      = if w ∈ reached words next start then some (some number) else old[w]? := by
  have hstart : Numbering.Follows number old ⟨old.set start (some number), [start]⟩
      ⟨[start], [start]⟩ := by
    refine ⟨rfl, fun v => ?_⟩
    rw [Numbering.getElem?_set (hold start Relation.ReflTransGen.refl)]
    simp only [List.mem_singleton]
  exact (hstart.run hold words (Sweep.covers_start next start)).getElem?_numbers w

/-! ## All groups -/

/-- The row of the positions of the words' groups. -/
def positions (words : Nat) (groups : List (List Nat)) : List (Option Nat) :=
  (List.range words).map fun w => groups.findIdx? (·.contains w)

theorem getElem?_positions {groups : List (List Nat)} (w : Nat) : (positions words groups)[w]?
    = if w < words then some (groups.findIdx? (·.contains w)) else none := by
  unfold positions
  rw [List.getElem?_map]
  by_cases hw : w < words
  · rw [if_pos hw, List.getElem?_range hw]
    rfl
  · rw [if_neg hw, List.getElem?_eq_none (by simpa using hw)]
    rfl

/-- A root leads to no word of an earlier group. -/
theorem Grouped.findIdx?_eq_none (hnext : ∀ u, ∀ v ∈ next u, v < words)
    (hsymm : ∀ u v, v ∈ next u → u ∈ next v) {root : Nat} {groups : List (List Nat)}
    {roots : List Nat} (h : Grouped words next root groups roots) (hlt : root < words)
    (hroot : IsRoot next root) {w : Nat} (hw : Leads next root w) :
    groups.findIdx? (·.contains w) = none := by
  rw [List.findIdx?_eq_none_iff]
  intro g hg
  rw [h.groups_eq, List.mem_map] at hg
  obtain ⟨r, hr, rfl⟩ := hg
  obtain ⟨hrlt, hr⟩ := (h.mem_roots r).mp hr
  have hwords : ∀ v, Leads next r v → v < words := fun v hv =>
    hv.lt_words hnext (Nat.lt_trans hrlt hlt)
  rw [Bool.eq_false_iff, ne_eq, List.contains_iff_mem, mem_reached hwords]
  intro hrw
  obtain rfl := hr.eq_of_leads hsymm hroot hrw hw
  exact Nat.lt_irrefl r hrlt

/-- The search from a root puts its group behind the earlier ones. -/
theorem Grouped.numbers_run (hnext : ∀ u, ∀ v ∈ next u, v < words)
    (hsymm : ∀ u v, v ∈ next u → u ∈ next v) {root : Nat} {groups : List (List Nat)}
    {roots : List Nat} (h : Grouped words next root groups roots) (hlt : root < words)
    (hroot : IsRoot next root) :
    (Numbering.run next groups.length words
      ⟨(positions words groups).set root (some groups.length), [root]⟩).numbers
        = positions words (groups ++ [reached words next root]) := by
  have hwords : ∀ w, Leads next root w → w < words := fun w hw => hw.lt_words hnext hlt
  have hold : ∀ w, Leads next root w → (positions words groups)[w]? = some none := fun w hw => by
    rw [getElem?_positions, if_pos (hwords w hw), h.findIdx?_eq_none hnext hsymm hlt hroot hw]
  refine List.ext_getElem? fun w => ?_
  rw [getElem?_numbers_run hold, getElem?_positions, getElem?_positions, List.findIdx?_append]
  by_cases hw : w ∈ reached words next root
  · have hlead := (mem_reached hwords).mp hw
    rw [if_pos hw, if_pos (hwords w hlead), h.findIdx?_eq_none hnext hsymm hlt hroot hlead]
    simp [hw]
  · rw [if_neg hw]
    simp [hw]

/-- Numbering the groups of the words that are left gives the row of all
groups. -/
theorem Grouped.numbersAmong_eq (hnext : ∀ u, ∀ v ∈ next u, v < words)
    (hsymm : ∀ u v, v ∈ next u → u ∈ next v) : ∀ (n : Nat) {seen : Nat}
    {groups : List (List Nat)} {roots : List Nat}, Grouped words next seen groups roots →
      seen + n = words →
        numbersAmong words next (List.range' seen n) groups.length (positions words groups)
          = positions words (Search.groupsAmong words next (List.range' seen n) groups)
  | 0, _, _, _, _, _ => rfl
  | n + 1, seen, groups, roots, h, hn => by
      have hlt : seen < words := by omega
      have hskip : ((next seen).isEmpty || (positions words groups)[seen]?.join.isSome)
          = ((next seen).isEmpty || groups.any (·.contains seen)) := by
        rw [getElem?_positions, if_pos hlt, Option.join_some, List.findIdx?_isSome]
      rw [List.range'_succ, numbersAmong, Search.groupsAmong, hskip]
      by_cases hroot : IsRoot next seen
      · have hstay : ¬((next seen).isEmpty || groups.any (·.contains seen)) = true := fun hskip =>
          (h.skips_iff hnext hlt).mp hskip hroot
        rw [if_neg hstay, if_neg hstay]
        dsimp only
        rw [h.numbers_run hnext hsymm hlt hroot]
        have ih := (h.append_root hroot).numbersAmong_eq hnext hsymm n (by omega)
        rwa [List.length_append, List.length_singleton] at ih
      · have hpass := (h.skips_iff hnext hlt).mpr hroot
        rw [if_pos hpass, if_pos hpass]
        exact (h.skip hroot).numbersAmong_eq hnext hsymm n (by omega)

/-- The numbers of the words are the positions of their groups. -/
theorem numbers_eq (hnext : ∀ u, ∀ v ∈ next u, v < words)
    (hsymm : ∀ u v, v ∈ next u → u ∈ next v) :
    numbers words next = positions words (groups words next) := by
  have hstart : positions words [] = List.replicate words none := by
    unfold positions
    simp
  unfold numbers groups
  rw [List.range_eq_range', ← hstart]
  exact (grouped_nil words next).numbersAmong_eq hnext hsymm words (Nat.zero_add words)

end Search

end LinkParse
