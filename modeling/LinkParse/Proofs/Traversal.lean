import LinkParse.Proofs.Cycles
import LinkParse.Proofs.Tables
import LinkParse.Proofs.Walk
import Mathlib.Data.List.TakeWhile

/-!
# Walks as searches

A walk keeps more than `Search.Sweep` or `Search.Numbering` do: the words that
have been in its queue and the marks of all words. Forgetting the marks, a turn
that does not come to the goal is a step of a sweep (`Walk.IsSound.sweep_turned`);
forgetting the words taken, it is a step of a numbering
(`Walk.numbering_turned`). So a walk finds what the search finds that goes to
the same words (`Tables.next`), and finds it without a bound on its turns.

The tables of a diagram fit together, and there the words to go on to are the
neighbours, right of a root or without a link (`DomainTable.next_tables_of_root`,
`next_tables_of_without`). Hence the three walks of a labeled linkage come to
their ends, in tables of the size of the sentence, and answer what the domain
table answers (`Linkage.domainTable_walks`).
-/

namespace LinkParse

namespace Search

variable {m : Manner} {t : Tables} {s : Walk} {words word : Nat}

/-! ## Where a walk goes on -/

/-- The words that a walk may go on to from a word. -/
def Tables.next (t : Tables) (m : Manner) (word : Nat) : List Nat :=
  ((t.linksAt[word]?.map (m.passes t.arcs word)).getD []).filter (!m.bars ·)

theorem Tables.mem_next {links : List Nat} (hlinks : t.linksAt[word]? = some links) {v : Nat} :
    v ∈ t.next m word ↔ v ∈ m.passes t.arcs word links ∧ m.bars v = false := by
  rw [next, hlinks, Option.map_some, Option.getD_some, List.mem_filter, Bool.not_eq_true']

theorem Tables.Fits.passes_lt (ht : t.Fits words) (links : List Nat) :
    ∀ v ∈ m.passes t.arcs word links, v < words := by
  intro v hv
  obtain ⟨i, -, hi⟩ := List.mem_filterMap.mp hv
  obtain ⟨a, ha, rfl⟩ := Option.map_eq_some_iff.mp hi
  exact ht.otherEnd_lt (List.mem_of_getElem? ha)

theorem Tables.Fits.next_lt (ht : t.Fits words) (m : Manner) (word : Nat) :
    ∀ v ∈ t.next m word, v < words := by
  intro v hv
  cases hlinks : t.linksAt[word]? with
  | none =>
      rw [Tables.next, hlinks] at hv
      cases hv
  | some links => exact ht.passes_lt links v ((Tables.mem_next hlinks).mp hv).1

namespace Walk

/-! ## Turns as steps -/

/-- The words that have entered the queue and those that are in it, as a search
has them. -/
def sweep (s : Walk) : Sweep := ⟨s.entered, s.queue⟩

@[simp] theorem queue_sweep (s : Walk) : s.sweep.queue = s.queue := rfl

/-- Visiting words puts those that have not been in the queue there, once each. -/
theorem IsSound.sweep_foldl_visit {s : Walk} (hs : s.IsSound words) (mark : Nat) :
    ∀ {ws : List Nat}, (∀ w ∈ ws, w < words) →
      (s.withNumbering (ws.foldl (Numbering.visit mark) s.numbering)).sweep
        = ⟨s.entered ++ fresh s.entered ws, s.queue ++ fresh s.entered ws⟩
  | [], _ => by
      rw [fresh, List.append_nil, List.append_nil]
      rfl
  | w :: ws, hwords => by
      rw [List.forall_mem_cons] at hwords
      have hrest := (hs.visit mark w).sweep_foldl_visit mark hwords.2
      rw [withNumbering_withNumbering, numbering_withNumbering] at hrest
      rw [List.foldl_cons, hrest, fresh]
      by_cases hw : w ∈ s.entered
      · obtain ⟨old, hmark⟩ := (hs.marked_iff w).mpr hw
        rw [if_pos hw, Numbering.visit_of_some hmark]
        rfl
      · have hfresh : fresh (s.entered ++ [w]) ws = fresh (w :: s.entered) ws :=
          fresh_congr fun v => by rw [List.mem_append, List.mem_singleton, List.mem_cons, or_comm]
        rw [if_neg hw, withNumbering_visit (hs.getElem?_marks hwords.1 hw), entered_entering,
          hfresh, List.append_assoc, Walk.entering, List.append_assoc]
        rfl

theorem arrived_turned {arcs : List Arc} {queue links : List Nat} :
    (s.turned m arcs word queue links).arrived
      = (m.passes arcs word links).any (m.goal? == some ·) := rfl

/-- Before it comes to its goal a walk enters all words that it passes and that
are not out of bounds. -/
theorem turned_of_goes {queue links : List Nat} (hlinks : t.linksAt[word]? = some links)
    (hgoes : (s.turned m t.arcs word queue links).arrived = false) :
    s.turned m t.arcs word queue links =
      withNumbering { s with arrived := false, taken := s.taken ++ [word] }
        ((t.next m word).foldl (Numbering.visit m.mark) ⟨s.marks, queue⟩) := by
  have hgoal : ∀ v ∈ m.passes t.arcs word links, m.goal? ≠ some v := by
    simpa [arrived_turned] using hgoes
  have henters : m.enters (m.passes t.arcs word links) = t.next m word := by
    rw [Tables.next, hlinks, Option.map_some, Option.getD_some, Manner.enters,
      List.takeWhile_eq_self_iff.mpr fun v hv => decide_eq_true (hgoal v hv)]
  rw [← hgoes, ← henters]
  rfl

/-- A turn that does not come to the goal is a step of a search, -/
theorem IsSound.sweep_turned (hs : s.IsSound words) (ht : t.Fits words) {queue links : List Nat}
    (hqueue : s.queue = word :: queue) (hlinks : t.linksAt[word]? = some links)
    (hgoes : (s.turned m t.arcs word queue links).arrived = false) :
    (s.turned m t.arcs word queue links).sweep = s.sweep.step (t.next m) := by
  have hvisited := (hs.take hqueue).sweep_foldl_visit m.mark (ht.next_lt m word)
  rw [entered_take hqueue] at hvisited
  rw [turned_of_goes hlinks hgoes, Sweep.step, queue_sweep, hqueue]
  exact hvisited

/-- and of a numbering. -/
theorem numbering_turned {queue links : List Nat} (hqueue : s.queue = word :: queue)
    (hlinks : t.linksAt[word]? = some links)
    (hgoes : (s.turned m t.arcs word queue links).arrived = false) :
    (s.turned m t.arcs word queue links).numbering = s.numbering.step (t.next m) m.mark := by
  rw [turned_of_goes hlinks hgoes, Numbering.step, queue_numbering, hqueue]
  rfl

/-- A walk without a goal goes on as a search and as a numbering do. -/
theorem IsSound.exists_run_of_goal_none (ht : t.Fits words) (hgoal : m.goal? = none) (n : Nat)
    (hs : s.IsSound words) (hload : s.load ≤ n) :
    ∃ r, s.run m t = .ok r ∧ r.IsSound words ∧ (r.arrived = true ∨ r.queue = []) ∧
      (s.arrived = false → r.arrived = false ∧ r.sweep = s.sweep.run (t.next m) n ∧
        r.numbering = s.numbering.run (t.next m) m.mark n) := by
  refine IsSound.exists_run ht (motive := fun n s r => s.arrived = false → r.arrived = false ∧
    r.sweep = s.sweep.run (t.next m) n ∧ r.numbering = s.numbering.run (t.next m) m.mark n)
    ?_ ?_ n hs hload
  · intro n s hended harrived
    have hqueue : s.queue = [] := hended.resolve_left (by simp [harrived])
    exact ⟨harrived, (Sweep.run_of_queue_nil hqueue n).symm,
      (Numbering.run_of_queue_nil hqueue n).symm⟩
  · intro n s r word queue links hs harrived hqueue hlinks ih _
    have hgoes : (s.turned m t.arcs word queue links).arrived = false := by
      rw [arrived_turned, hgoal]
      exact List.any_eq_false.mpr fun v _ => by simp
    rw [hs.sweep_turned ht hqueue hlinks hgoes, numbering_turned hqueue hlinks hgoes] at ih
    exact ih hgoes

/-- A walk with a goal comes to it exactly if a search does that looks for it. -/
theorem IsSound.exists_run_of_goal {goal : Nat} (ht : t.Fits words) (hgoal : m.goal? = some goal)
    (hbars : m.bars goal = false) (n : Nat) (hs : s.IsSound words) (hload : s.load ≤ n) :
    ∃ r, s.run m t = .ok r ∧ r.IsSound words ∧ (r.arrived = true ∨ r.queue = []) ∧
      r.arrived = (s.arrived || s.sweep.comesTo (t.next m) goal n) := by
  refine IsSound.exists_run ht (motive := fun n s r =>
    r.arrived = (s.arrived || s.sweep.comesTo (t.next m) goal n)) ?_ ?_ n hs hload
  · intro n s hended
    rcases hended with harrived | hqueue
    · rw [harrived, Bool.true_or]
    · rw [Sweep.comesTo_of_queue_nil hqueue, Bool.or_false]
  · intro n s r word queue links hs harrived hqueue hlinks ih
    have hnext : (s.turned m t.arcs word queue links).arrived = (t.next m word).contains goal := by
      rw [arrived_turned, hgoal, Bool.eq_iff_iff, List.contains_iff_mem, Tables.mem_next hlinks,
        hbars]
      simp
    rw [ih, harrived, Bool.false_or, Sweep.comesTo, queue_sweep, hqueue]
    dsimp only
    rw [hnext]
    cases hcontains : (t.next m word).contains goal with
    | true => rfl
    | false => rw [hs.sweep_turned ht hqueue hlinks (hnext.trans hcontains)]

/-! ## Whole walks -/

theorem sweep_entering {mark : Nat} (hempty : s.queue = []) :
    (s.entering mark word).sweep = ⟨s.taken ++ [word], [word]⟩ := by
  rw [sweep, entered_entering, entered, entering, hempty, List.append_nil, List.nil_append]

theorem numbering_entering {mark : Nat} (hempty : s.queue = []) :
    (s.entering mark word).numbering = ⟨s.marks.set word (some mark), [word]⟩ := by
  rw [numbering, entering, hempty, List.nil_append]

/-- With an empty queue there are no more turns than words. -/
theorem IsSound.load_le (hs : s.IsSound words) (hempty : s.queue = []) : s.load ≤ words := by
  unfold load
  rw [hempty, List.length_nil, Nat.add_zero, ← hs.length_marks]
  exact List.countP_le_length

theorem IsSound.load_entering_le {mark : Nat} (hs : s.IsSound words) (hempty : s.queue = [])
    (hfree : s.marks[word]? = some none) : (s.entering mark word).load ≤ words :=
  (load_enter hfree (enter_eq hfree)).trans_le (hs.load_le hempty)

end Walk

namespace Tables

theorem walkFrom_eq (hfree : s.marks[word]? = some none) :
    t.walkFrom m word s = (s.entering m.mark word).run m t := by
  unfold walkFrom
  rw [Walk.enter_eq hfree, ok_bind]

/-- A walk without a goal, from a word without a mark, goes on until its queue is
empty. -/
theorem Fits.exists_walkFrom (ht : t.Fits words) (hgoal : m.goal? = none) (hs : s.IsSound words)
    (harrived : s.arrived = false) (hempty : s.queue = []) (hfree : s.marks[word]? = some none) :
    ∃ r, t.walkFrom m word s = .ok r ∧ r.IsSound words ∧ r.arrived = false ∧ r.queue = [] ∧
      r.sweep = Sweep.run (t.next m) words ⟨s.taken ++ [word], [word]⟩ ∧
      r.numbering =
        Numbering.run (t.next m) m.mark words ⟨s.marks.set word (some m.mark), [word]⟩ := by
  obtain ⟨r, hrun, hr, hended, hsame⟩ := Walk.IsSound.exists_run_of_goal_none ht hgoal words
    (hs.entering hfree) (hs.load_entering_le hempty hfree)
  obtain ⟨harrived, hsweep, hnumbering⟩ := hsame harrived
  rw [Walk.sweep_entering hempty] at hsweep
  rw [Walk.numbering_entering hempty] at hnumbering
  rw [walkFrom_eq hfree]
  exact ⟨r, hrun, hr, harrived, hended.resolve_left (by simp [harrived]), hsweep, hnumbering⟩

theorem getElem?_marks_idle (ht : t.Fits words) (hword : word < words) :
    t.idle.marks[word]? = some none := by
  unfold idle
  rw [List.getElem?_replicate, ht.length_linksAt, if_pos hword]

/-- From an idle walk, a walk without a goal takes the words that a search finds, -/
theorem Fits.exists_walkFrom_idle (ht : t.Fits words) (hgoal : m.goal? = none)
    (hword : word < words) :
    ∃ r, t.walkFrom m word t.idle = .ok r ∧ r.IsSound words ∧ r.queue = [] ∧
      r.taken = reached words (t.next m) word := by
  obtain ⟨r, hrun, hr, -, hqueue, hsweep, -⟩ := ht.exists_walkFrom hgoal (Walk.isSound_idle ht) rfl
    rfl (getElem?_marks_idle ht hword)
  refine ⟨r, hrun, hr, hqueue, ?_⟩
  have hentered : r.entered = r.taken := by rw [Walk.entered, hqueue, List.append_nil]
  exact hentered ▸ congrArg Sweep.found hsweep

/-- and one with a goal comes to it exactly if a search does. -/
theorem Fits.exists_walkFrom_idle_of_goal {goal : Nat} (ht : t.Fits words)
    (hgoal : m.goal? = some goal) (hbars : m.bars goal = false) (hword : word < words) :
    ∃ r, t.walkFrom m word t.idle = .ok r ∧ r.IsSound words ∧
      (r.arrived = true ∨ r.queue = []) ∧ r.arrived = comesTo words (t.next m) word goal := by
  have hidle := Walk.isSound_idle ht
  have hfree := getElem?_marks_idle ht hword
  rw [walkFrom_eq hfree]
  exact Walk.IsSound.exists_run_of_goal ht hgoal hbars words (hidle.entering hfree)
    (hidle.load_entering_le rfl hfree)

/-- Links that have arcs lead to as many words. -/
theorem Fits.isEmpty_next (ht : t.Fits words) (hwithout : m.without? = none)
    (hroot : m.root? = none) {links : List Nat} (hlinks : t.linksAt[word]? = some links) :
    (t.next m word).isEmpty = links.isEmpty := by
  have hbars : ∀ v, m.bars v = false := fun v => by rw [Manner.bars, hroot, Option.any_none]
  cases links with
  | nil => rw [next, hlinks]; rfl
  | cons link links =>
      have hlt := ht.lt_length_arcs _ (List.mem_of_getElem? hlinks) link (List.mem_cons_self ..)
      have hpasses : m.passes t.arcs word (link :: links)
          = t.arcs[link].otherEnd word :: m.passes t.arcs word links :=
        Manner.passes_cons (by simp [hwithout]) (List.getElem?_eq_getElem hlt)
      rw [next, hlinks, Option.map_some, Option.getD_some, hpasses, List.filter_cons, hbars]
      rfl

/-- Walking on from each word marks the words as one numbering does. The walks
share their marks, and each leaves an empty queue to the next one. -/
theorem Fits.exists_componentWalkAmong (ht : t.Fits words) : ∀ {ws : List Nat} (number : Nat)
    {s : Walk}, (∀ w ∈ ws, w < words) → s.IsSound words → s.arrived = false → s.queue = [] →
      ∃ r, t.componentWalkAmong ws number s = .ok r ∧ r.IsSound words ∧ r.queue = [] ∧
        r.marks = numbersAmong words (t.next {}) ws number s.marks
  | [], _, s, _, hs, _, hempty => ⟨s, rfl, hs, hempty, rfl⟩
  | w :: ws, number, s, hws, hs, harrived, hempty => by
      rw [List.forall_mem_cons] at hws
      have hlt : w < s.marks.length := hs.length_marks ▸ hws.1
      have hrow : w < t.linksAt.length := ht.length_linksAt ▸ hws.1
      have hnext := ht.isEmpty_next (m := {}) rfl rfl (List.getElem?_eq_getElem hrow)
      unfold componentWalkAmong numbersAmong
      rw [lookUp_of_lt hlt, ok_bind, hnext]
      cases hmark : s.marks[w] with
      | some mark =>
          have hskip : s.marks[w]?.join.isSome = true := by
            rw [List.getElem?_eq_getElem hlt, hmark]
            rfl
          rw [hskip, Bool.or_true, if_pos rfl]
          exact ht.exists_componentWalkAmong number hws.2 hs harrived hempty
      | none =>
          have hfree : s.marks[w]? = some none := by rw [List.getElem?_eq_getElem hlt, hmark]
          dsimp only
          rw [lookUp_of_lt hrow, ok_bind, hfree]
          cases hlinks : t.linksAt[w].isEmpty with
          | true => exact ht.exists_componentWalkAmong number hws.2 hs harrived hempty
          | false =>
              obtain ⟨r, hwalk, hr, harrived, hqueue, -, hnumbering⟩ :=
                ht.exists_walkFrom (m := { mark := number }) rfl hs harrived hempty hfree
              have hmarks : r.marks = (Numbering.run (t.next { mark := number }) number words
                  ⟨s.marks.set w (some number), [w]⟩).numbers :=
                congrArg Numbering.numbers hnumbering
              obtain ⟨r', hrest⟩ :=
                ht.exists_componentWalkAmong (number + 1) hws.2 hr harrived hqueue
              -- the manner of this walk differs from the plain one in its mark only
              rw [hmarks] at hrest
              rw [if_neg Bool.false_ne_true, hwalk, ok_bind]
              exact ⟨r', hrest⟩

theorem Fits.exists_componentWalk (ht : t.Fits words) :
    ∃ r, t.componentWalk = .ok r ∧ r.IsSound words ∧ r.queue = [] ∧
      r.marks = numbers words (t.next {}) := by
  obtain ⟨r, hwalk, hr, hqueue, hmarks⟩ := ht.exists_componentWalkAmong 0
    (fun w hw => List.mem_range.mp hw) (Walk.isSound_idle ht) rfl rfl
  refine ⟨r, ?_, hr, hqueue, ?_⟩
  · rw [componentWalk, ht.length_linksAt, hwalk]
  · rw [hmarks, idle, ht.length_linksAt]
    rfl

end Tables

end Search

/-! ## The tables of a diagram -/

theorem Arc.across?_eq (a : Arc) (w : Nat) :
    a.across? w = if a.touches w then some (a.otherEnd w) else none := by
  unfold across? touches otherEnd
  by_cases hleft : a.left = w <;> by_cases hright : a.right = w <;> simp [hleft, hright]

namespace Diagram

variable {d : Diagram} {m : Search.Manner} {w : Nat}

/-- What a walk passes at a word lies across the arcs there, in their order. -/
theorem passes_arcsAt (m : Search.Manner) (d : Diagram) (w : Nat) :
    m.passes d.arcs w (d.arcsAt w) =
      (d.arcs.zipIdx.filter (m.without? ≠ some ·.2)).filterMap (·.1.across? w) := by
  unfold Search.Manner.passes arcsAt
  rw [List.filter_map, List.filterMap_map, List.filter_filter, List.filterMap_filter,
    List.filterMap_filter]
  refine List.filterMap_congr fun p hp => ?_
  have harc : d.arcs[p.2]? = some p.1 := List.mk_mem_zipIdx_iff_getElem?.mp hp
  rw [Arc.across?_eq]
  cases htouches : p.1.touches w <;> simp [htouches, harc]

theorem passes_arcsAt_of_without_none (h : m.without? = none) :
    m.passes d.arcs w (d.arcsAt w) = d.neighbours w := by
  have hfilter : d.arcs.zipIdx.filter (m.without? ≠ some ·.2) = d.arcs.zipIdx :=
    List.filter_eq_self.mpr fun p _ => by simp [h]
  rw [passes_arcsAt, hfilter, neighbours, neighboursBy]
  conv_rhs => rw [← List.zipIdx_map_fst 0 d.arcs, List.filterMap_map]
  rfl

theorem passes_arcsAt_of_without {i : Nat} (h : m.without? = some i) :
    m.passes d.arcs w (d.arcsAt w) = neighboursBy (d.arcs.eraseIdx i) w := by
  have hfilter : d.arcs.zipIdx.filter (m.without? ≠ some ·.2)
      = d.arcs.zipIdx.filter (·.2 ≠ i + 0) := by
    refine List.filter_congr fun p _ => ?_
    simp [h, eq_comm]
  rw [passes_arcsAt, hfilter, neighboursBy, ← map_fst_filter_zipIdx_ne d.arcs i 0,
    List.filterMap_map]
  rfl

end Diagram

namespace DomainTable

variable {rules : RuleSet} {d : Diagram} {m : Search.Manner} {w : Nat}

theorem linksAt_tables (rules : RuleSet) (d : Diagram) :
    (ofDiagram rules d).tables.linksAt = (List.range d.words).map d.arcsAt :=
  linksAt_rows (ofDiagram rules d)

theorem arcs_tables (rules : RuleSet) (d : Diagram) :
    (ofDiagram rules d).tables.arcs = d.arcs := rfl

/-- The tables of a diagram fit together. -/
theorem fits_tables (rules : RuleSet) (d : Diagram) : (ofDiagram rules d).tables.Fits d.words where
  length_linksAt := by rw [linksAt_tables, List.length_map, List.length_range]
  lt_length_arcs := by
    intro row hrow i hi
    rw [linksAt_tables] at hrow
    obtain ⟨w, -, rfl⟩ := List.mem_map.mp hrow
    obtain ⟨a, ha, -⟩ := Diagram.mem_arcsAt.mp hi
    exact (List.getElem?_eq_some_iff.mp ha).1
  right_lt := d.right_lt_words

theorem next_tables (m : Search.Manner) (w : Nat) :
    (ofDiagram rules d).tables.next m w =
      (m.passes d.arcs w (d.arcsAt w)).filter (!m.bars ·) := by
  unfold Search.Tables.next
  rw [linksAt_tables, arcs_tables, List.getElem?_map]
  by_cases hw : w < d.words
  · rw [List.getElem?_range hw]
    rfl
  · have hnone : d.arcsAt w = [] := by
      refine List.eq_nil_iff_forall_not_mem.mpr fun i hi => hw ?_
      obtain ⟨a, ha, hends⟩ := Diagram.mem_arcsAt.mp hi
      have hright := d.right_lt_words a (List.mem_of_getElem? ha)
      have hleft := a.left_lt_right
      omega
    rw [hnone, List.getElem?_eq_none (by simpa using hw)]
    rfl

/-- The walk of a domain goes on to the neighbours right of the root. -/
theorem next_tables_of_root (root : Nat) :
    (ofDiagram rules d).tables.next { root? := some root }
      = fun w => (d.neighbours w).filter (root < ·) := by
  funext w
  rw [next_tables, Diagram.passes_arcsAt_of_without_none rfl]
  refine List.filter_congr fun v _ => ?_
  rw [Search.Manner.bars, Option.any_some, Bool.eq_iff_iff, Bool.not_eq_true',
    decide_eq_false_iff_not, Nat.not_le, decide_eq_true_eq]

theorem next_tables_of_without (i goal : Nat) :
    (ofDiagram rules d).tables.next { without? := some i, goal? := some goal }
      = Diagram.neighboursBy (d.arcs.eraseIdx i) := by
  funext w
  rw [next_tables, Diagram.passes_arcsAt_of_without rfl]
  exact List.filter_eq_self.mpr fun _ _ => rfl

theorem next_tables_of_empty : (ofDiagram rules d).tables.next {} = d.neighbours := by
  funext w
  rw [next_tables, Diagram.passes_arcsAt_of_without_none rfl]
  exact List.filter_eq_self.mpr fun _ _ => rfl

/-! ## The three walks -/

variable {i : Nat} {a : Arc}

/-- The walk of a domain takes the words that the domain reaches, in the order in
which a search finds them. -/
theorem exists_domainWalk (rules : RuleSet) (ha : d.arcs[i]? = some a) :
    ∃ s, (ofDiagram rules d).tables.domainWalk i = .ok s ∧ s.IsSound d.words ∧ s.queue = [] ∧
      s.taken = Domain.reachedWords d .full a := by
  obtain ⟨s, hwalk, hs⟩ := (fits_tables rules d).exists_walkFrom_idle
    (m := { root? := some a.left }) rfl (d.right_lt_words a (List.mem_of_getElem? ha))
  rw [next_tables_of_root] at hs
  unfold Search.Tables.domainWalk
  rw [arcs_tables, Search.lookUp_eq_ok_iff.mpr ha, ok_bind]
  exact ⟨s, hwalk, hs⟩

/-- The walk round a link comes to the link's right word exactly if a search
does. -/
theorem exists_detourWalk (rules : RuleSet) (ha : d.arcs[i]? = some a) :
    ∃ s, (ofDiagram rules d).tables.detourWalk i = .ok s ∧ s.IsSound d.words ∧
      (s.arrived = true ∨ s.queue = []) ∧ s.arrived = (ofDiagram rules d).hasDetour i := by
  obtain ⟨s, hwalk, hs⟩ := (fits_tables rules d).exists_walkFrom_idle_of_goal
    (m := { without? := some i, goal? := some a.right }) rfl rfl
    (Diagram.left_lt_words (List.mem_of_getElem? ha))
  rw [next_tables_of_without] at hs
  unfold Search.Tables.detourWalk hasDetour
  rw [arcs_tables, Search.lookUp_eq_ok_iff.mpr ha, ok_bind,
    show (ofDiagram rules d).diagram.arcs[i]? = some a from ha]
  exact ⟨s, hwalk, hs⟩

/-- The walks of the components leave the marks that the numbering leaves. -/
theorem exists_componentWalk (rules : RuleSet) (d : Diagram) :
    ∃ s, (ofDiagram rules d).tables.componentWalk = .ok s ∧ s.IsSound d.words ∧ s.queue = [] ∧
      s.marks = (ofDiagram rules d).components := by
  obtain ⟨s, hwalk, hs⟩ := (fits_tables rules d).exists_componentWalk
  rw [next_tables_of_empty] at hs
  exact ⟨s, hwalk, hs⟩

end DomainTable

namespace Linkage

variable {k : Linkage}

/-- What the walks through a domain table do: their look-ups succeed, in tables
with a row for each word and an arc for each link, and each comes to its end. -/
structure IsWalkable (k : Linkage) (t : DomainTable) : Prop where
  length_linksAt : t.tables.linksAt.length = k.words
  length_arcs : t.tables.arcs.length = k.size
  lt_size : ∀ row ∈ t.tables.linksAt, ∀ i ∈ row, i < k.size
  domainWalk : ∀ i l, k.links[i]? = some l → ∃ s, t.tables.domainWalk i = .ok s ∧
    s.HasEnded k.words ∧ s.queue = [] ∧ s.taken = Domain.reachedWords k.diagram .full l.arc
  detourWalk : ∀ i l, k.links[i]? = some l → ∃ s, t.tables.detourWalk i = .ok s ∧
    s.HasEnded k.words ∧ s.arrived = t.hasDetour i
  /-- Over all components no word enters the queue twice either. -/
  componentWalk : ∃ s, t.tables.componentWalk = .ok s ∧ s.HasEnded k.words ∧ s.queue = [] ∧
    s.marks = t.components

theorem isWalkable_ofDiagram (k : Linkage) (rules : RuleSet) :
    k.IsWalkable (DomainTable.ofDiagram rules k.diagram) where
  length_linksAt := (DomainTable.fits_tables rules k.diagram).length_linksAt
  length_arcs := length_arcs_diagram k
  lt_size := length_arcs_diagram k ▸ (DomainTable.fits_tables rules k.diagram).lt_length_arcs
  domainWalk i l hl := by
    have harc : k.diagram.arcs[i]? = some l.arc := getElem?_arcs_diagram.mpr ⟨l, hl, rfl⟩
    obtain ⟨s, hwalk, hs, hqueue, htaken⟩ := DomainTable.exists_domainWalk rules harc
    exact ⟨s, hwalk, hs.hasEnded (.inr hqueue), hqueue, htaken⟩
  detourWalk i l hl := by
    have harc : k.diagram.arcs[i]? = some l.arc := getElem?_arcs_diagram.mpr ⟨l, hl, rfl⟩
    obtain ⟨s, hwalk, hs, hended, harrived⟩ := DomainTable.exists_detourWalk rules harc
    exact ⟨s, hwalk, hs.hasEnded hended, harrived⟩
  componentWalk := by
    obtain ⟨s, hwalk, hs, hqueue, hmarks⟩ := DomainTable.exists_componentWalk rules k.diagram
    exact ⟨s, hwalk, hs.hasEnded (.inr hqueue), hqueue, hmarks⟩

/-- In the domain table of a labeled linkage all walks come to their ends, with
no word twice in a queue and no look-up that fails. -/
theorem domainTable_walks (h : k.isLabeled = true) (rules : RuleSet) :
    ∃ t, k.domainTable rules = .ok t ∧ k.IsWalkable t :=
  ⟨_, domainTable_of_isLabeled h rules, isWalkable_ofDiagram k rules⟩

/-- Of a link that is written twice, the walk round the one comes to its right
word by the other, and the walk of its domain takes the two words behind its
root. -/
theorem domainTable_walks_doubled : Sample.doubled.isLabeled = true ∧
    ∃ t s s', Sample.doubled.domainTable Sample.clauseChecks = .ok t ∧
      t.tables.detourWalk 0 = .ok s ∧ s.arrived = true ∧ s.taken.length ≤ 3 ∧
      t.tables.domainWalk 0 = .ok s' ∧ s'.taken = [1, 2] := by
  have h : Sample.doubled.isLabeled = true := by decide +kernel
  obtain ⟨t, ht, hwalks⟩ := domainTable_walks h Sample.clauseChecks
  obtain ⟨l, hl, hreached⟩ : ∃ l, Sample.doubled.links[0]? = some l ∧
      Domain.reachedWords Sample.doubled.diagram .full l.arc = [1, 2] :=
    ⟨Sample.doubled.links.get ⟨0, by decide +kernel⟩, by decide +kernel⟩
  have hcomputed : (Sample.doubled.domainTable Sample.clauseChecks).map (·.hasDetour 0)
      = .ok true := by decide +kernel
  have hdetour : t.hasDetour 0 = true := eq_of_map_domainTable ht hcomputed
  have hwords : Sample.doubled.words = 3 := by decide +kernel
  obtain ⟨s, hs, hended, harrived⟩ := hwalks.detourWalk 0 l hl
  obtain ⟨s', hs', -, -, htaken⟩ := hwalks.domainWalk 0 l hl
  exact ⟨h, t, s, s', ht, hs, harrived.trans hdetour, hwords ▸ hended.length_taken_le, hs',
    htaken.trans hreached⟩

end Linkage

end LinkParse
