import LinkParse.Proofs.Lists
import LinkParse.Search
import Mathlib.Data.List.Nodup
import Mathlib.Data.List.Perm.Subperm
import Mathlib.Data.List.Range
import Mathlib.Data.Nat.Find
import Mathlib.Logic.Relation

/-!
# What the search finds

`Search.reached` against the relation that it decides: a word is found
exactly if a path of neighbours leads to it from the start (`mem_reached`).
The search takes as many steps as there are words, which suffices because
every word enters the queue at most once (`covers_sweepFrom`).

`Search.groups` is the list of the paths' classes, one search for the
smallest word of each (`groups_eq`).
-/

namespace LinkParse

namespace Search

/-- A path of neighbours leads from one word to another. -/
abbrev Leads (next : Nat → List Nat) : Nat → Nat → Prop :=
  Relation.ReflTransGen fun u v => v ∈ next u

/-! ## New words -/

theorem mem_fresh {v : Nat} : ∀ {ws found : List Nat}, v ∈ fresh found ws ↔ v ∈ ws ∧ v ∉ found
  | [], _ => by simp [fresh]
  | w :: ws, found => by
      by_cases hw : w ∈ found
      · rw [fresh, if_pos hw, mem_fresh, List.mem_cons]
        constructor
        · rintro ⟨hv, hnot⟩
          exact ⟨Or.inr hv, hnot⟩
        · rintro ⟨rfl | hv, hnot⟩
          · exact absurd hw hnot
          · exact ⟨hv, hnot⟩
      · rw [fresh, if_neg hw, List.mem_cons, mem_fresh, List.mem_cons, List.mem_cons]
        constructor
        · rintro (rfl | ⟨hv, hnot⟩)
          · exact ⟨Or.inl rfl, hw⟩
          · exact ⟨Or.inr hv, fun h => hnot (Or.inr h)⟩
        · rintro ⟨rfl | hv, hnot⟩
          · exact Or.inl rfl
          · by_cases hvw : v = w
            · exact Or.inl hvw
            · exact Or.inr ⟨hv, fun h => h.elim hvw hnot⟩

theorem nodup_fresh : ∀ (ws found : List Nat), (fresh found ws).Nodup
  | [], _ => List.nodup_nil
  | w :: ws, found => by
      by_cases hw : w ∈ found
      · rw [fresh, if_pos hw]
        exact nodup_fresh ws found
      · rw [fresh, if_neg hw]
        refine List.nodup_cons.mpr ⟨fun hmem => ?_, nodup_fresh ws _⟩
        exact (mem_fresh.mp hmem).2 (List.mem_cons_self ..)

/-- Which words are new depends on what has been found, not on the order. -/
theorem fresh_congr : ∀ {ws found found' : List Nat}, (∀ v, v ∈ found ↔ v ∈ found') →
    fresh found ws = fresh found' ws
  | [], _, _, _ => rfl
  | w :: ws, found, found', h => by
      have hcons : ∀ v, v ∈ w :: found ↔ v ∈ w :: found' := fun v => by
        rw [List.mem_cons, List.mem_cons, h v]
      rw [fresh, fresh, fresh_congr h, fresh_congr hcons]
      simp only [h]

/-! ## The invariant of a sweep -/

/-- What holds of a search from `start` after the words `taken` have left
the queue: the words found are these and the ones still in the queue, once
each; a path leads to each; and nothing next to a word that has left the
queue is missing. -/
structure Sweep.Covers (next : Nat → List Nat) (start : Nat) (taken : List Nat) (s : Sweep) :
    Prop where
  found_eq : s.found = taken ++ s.queue
  nodup : s.found.Nodup
  start_found : start ∈ s.found
  leads : ∀ w ∈ s.found, Leads next start w
  closed : ∀ u ∈ taken, ∀ v ∈ next u, v ∈ s.found

variable {next : Nat → List Nat} {start : Nat} {words : Nat}

theorem Sweep.covers_start (next : Nat → List Nat) (start : Nat) :
    Sweep.Covers next start [] ⟨[start], [start]⟩ where
  found_eq := rfl
  nodup := List.nodup_singleton start
  start_found := List.mem_singleton_self start
  leads w hw := by
    rw [List.mem_singleton] at hw
    exact hw ▸ Relation.ReflTransGen.refl
  closed u hu := absurd hu List.not_mem_nil

/-- A step moves the queue's front to the words that have left it. -/
theorem Sweep.Covers.step {taken : List Nat} {s : Sweep} (h : s.Covers next start taken)
    {w : Nat} {queue : List Nat} (hq : s.queue = w :: queue) :
    (s.step next).Covers next start (taken ++ [w]) := by
  have hw : w ∈ s.found := by
    rw [h.found_eq, hq]
    simp
  have hstep : s.step next
      = ⟨s.found ++ fresh s.found (next w), queue ++ fresh s.found (next w)⟩ := by
    unfold Sweep.step
    rw [hq]
  rw [hstep]
  refine ⟨?_, ?_, List.mem_append_left _ h.start_found, ?_, ?_⟩
  · show s.found ++ _ = _
    rw [h.found_eq, hq]
    simp
  · refine List.nodup_append.mpr ⟨h.nodup, nodup_fresh _ _, ?_⟩
    rintro u hu v hv rfl
    exact (mem_fresh.mp hv).2 hu
  · intro u hu
    rcases List.mem_append.mp hu with hu | hu
    · exact h.leads u hu
    · exact (h.leads w hw).tail (mem_fresh.mp hu).1
  · intro u hu v hv
    rcases List.mem_append.mp hu with hu | hu
    · exact List.mem_append_left _ (h.closed u hu v hv)
    · obtain rfl := List.mem_singleton.mp hu
      by_cases hold : v ∈ s.found
      · exact List.mem_append_left _ hold
      · exact List.mem_append_right _ (mem_fresh.mpr ⟨hv, hold⟩)

theorem Sweep.step_of_queue_nil {s : Sweep} (hq : s.queue = []) : s.step next = s := by
  unfold Sweep.step
  rw [hq]

theorem Sweep.run_of_queue_nil {s : Sweep} (hq : s.queue = []) :
    ∀ steps : Nat, Sweep.run next steps s = s
  | 0 => rfl
  | steps + 1 => by
      rw [Sweep.run, Sweep.step_of_queue_nil hq]
      exact Sweep.run_of_queue_nil hq steps

/-- After some steps the queue is empty, or each step has taken a word off
it. -/
theorem Sweep.Covers.run : ∀ (steps : Nat) {taken : List Nat} {s : Sweep},
    s.Covers next start taken →
      ∃ taken', (Sweep.run next steps s).Covers next start taken' ∧
        ((Sweep.run next steps s).queue = [] ∨ taken'.length = taken.length + steps)
  | 0, taken, _, h => ⟨taken, h, Or.inr rfl⟩
  | steps + 1, taken, s, h => by
      cases hq : s.queue with
      | nil =>
          rw [Sweep.run_of_queue_nil hq]
          exact ⟨taken, h, Or.inl hq⟩
      | cons w queue =>
          obtain ⟨taken', h', hend⟩ := Sweep.Covers.run steps (h.step hq)
          refine ⟨taken', h', hend.imp_right fun hlen => ?_⟩
          rw [hlen, List.length_append, List.length_singleton]
          omega

/-! ## The whole search -/

/-- The words found are different words of the sentence, so there are no
more of them than the sentence has words. -/
theorem Sweep.Covers.length_found_le {taken : List Nat} {s : Sweep} (h : s.Covers next start taken)
    (hwords : ∀ w, Leads next start w → w < words) : s.found.length ≤ words := by
  have hsub : s.found ⊆ List.range words := fun w hw =>
    List.mem_range.mpr (hwords w (h.leads w hw))
  have hlen := (List.subperm_of_subset h.nodup hsub).length_le
  rwa [List.length_range] at hlen

/-- When as many words have left the queue as the sentence has, the queue is
empty. -/
theorem Sweep.Covers.queue_eq_nil {taken : List Nat} {s : Sweep} (h : s.Covers next start taken)
    (hwords : ∀ w, Leads next start w → w < words) (hlen : words ≤ taken.length) :
    s.queue = [] := by
  have hle := h.length_found_le hwords
  rw [h.found_eq, List.length_append] at hle
  exact List.length_eq_zero_iff.mp (by omega)

/-- A search with an empty queue has found exactly the words that a path leads
to. -/
theorem Sweep.Covers.mem_found_iff {taken : List Nat} {s : Sweep} (h : s.Covers next start taken)
    (hempty : s.queue = []) {w : Nat} : w ∈ s.found ↔ Leads next start w := by
  have htaken : s.found = taken := by rw [h.found_eq, hempty, List.append_nil]
  refine ⟨h.leads w, fun hw => ?_⟩
  induction hw with
  | refl => exact h.start_found
  | tail _ hnext ih => exact h.closed _ (htaken ▸ ih) _ hnext

/-- One step for each word of the sentence empties the queue. -/
theorem covers_sweepFrom (hwords : ∀ w, Leads next start w → w < words) :
    ∃ taken, (sweepFrom words next start).Covers next start taken ∧
      (sweepFrom words next start).queue = [] := by
  obtain ⟨taken, h, hend⟩ := (Sweep.covers_start next start).run words
  refine ⟨taken, h, ?_⟩
  rcases hend with hend | hlen
  · exact hend
  · rw [List.length_nil, Nat.zero_add] at hlen
    exact h.queue_eq_nil hwords hlen.ge

/-- The search finds exactly the words that a path leads to. -/
theorem mem_reached (hwords : ∀ w, Leads next start w → w < words) {w : Nat} :
    w ∈ reached words next start ↔ Leads next start w := by
  obtain ⟨taken, h, hempty⟩ := covers_sweepFrom hwords
  exact h.mem_found_iff hempty

/-! ## Groups -/

/-- The smallest word of a group: it is next to some word, and no path
leads to it from a smaller one. -/
def IsRoot (next : Nat → List Nat) (r : Nat) : Prop :=
  next r ≠ [] ∧ ∀ v, Leads next v r → r ≤ v

theorem Leads.lt_words (hnext : ∀ u, ∀ v ∈ next u, v < words) {u v : Nat} (h : Leads next u v)
    (hu : u < words) : v < words := by
  rcases h.cases_tail with rfl | ⟨x, -, hv⟩
  · exact hu
  · exact hnext x v hv

theorem Leads.symm (hsymm : ∀ u v, v ∈ next u → u ∈ next v) {u v : Nat} (h : Leads next u v) :
    Leads next v u := by
  induction h with
  | refl => exact Relation.ReflTransGen.refl
  | tail _ hv ih => exact ih.head (hsymm _ _ hv)

/-- Every word that is next to some word belongs to the group of a root: of
the words that lead to it, the smallest. -/
theorem exists_isRoot {w : Nat} (hw : next w ≠ []) : ∃ r ≤ w, IsRoot next r ∧ Leads next r w := by
  classical
  have hself : Leads next w w := Relation.ReflTransGen.refl
  have hex : ∃ r, Leads next r w := ⟨w, hself⟩
  have hleads := Nat.find_spec hex
  refine ⟨Nat.find hex, Nat.find_min' hex hself,
    ⟨?_, fun v hv => Nat.find_min' hex (hv.trans hleads)⟩, hleads⟩
  rcases hleads.cases_head with heq | ⟨v, hv, -⟩
  · rwa [heq]
  · exact List.ne_nil_of_mem hv

/-- A word leads to at most one root. -/
theorem IsRoot.eq_of_leads (hsymm : ∀ u v, v ∈ next u → u ∈ next v) {r r' w : Nat}
    (hr : IsRoot next r) (hr' : IsRoot next r') (h : Leads next r w) (h' : Leads next r' w) :
    r = r' :=
  Nat.le_antisymm (hr.2 r' (h'.trans (h.symm hsymm))) (hr'.2 r (h.trans (h'.symm hsymm)))

/-- What holds of the groups after the words below `seen` have been looked
at: they are the searches from the roots among these, in ascending order. -/
structure Grouped (words : Nat) (next : Nat → List Nat) (seen : Nat) (groups : List (List Nat))
    (roots : List Nat) : Prop where
  groups_eq : groups = roots.map (reached words next)
  ascending : roots.Pairwise (· < ·)
  mem_roots : ∀ r, r ∈ roots ↔ r < seen ∧ IsRoot next r

theorem grouped_nil (words : Nat) (next : Nat → List Nat) : Grouped words next 0 [] [] where
  groups_eq := rfl
  ascending := List.Pairwise.nil
  mem_roots r := by simp

/-- A word is passed over exactly if it is no root. -/
theorem Grouped.skips_iff (hnext : ∀ u, ∀ v ∈ next u, v < words) {w : Nat}
    {groups : List (List Nat)} {roots : List Nat} (h : Grouped words next w groups roots)
    (hw : w < words) :
    ((next w).isEmpty || groups.any (·.contains w)) = true ↔ ¬IsRoot next w := by
  have hmem : ∀ r ∈ roots, (w ∈ reached words next r ↔ Leads next r w) := fun r hr =>
    mem_reached fun v hv => hv.lt_words hnext (Nat.lt_trans ((h.mem_roots r).mp hr).1 hw)
  rw [Bool.or_eq_true, List.isEmpty_iff, List.any_eq_true]
  constructor
  · rintro (hnil | ⟨g, hg, hwg⟩) hroot
    · exact hroot.1 hnil
    · rw [h.groups_eq, List.mem_map] at hg
      obtain ⟨r, hr, rfl⟩ := hg
      have hle := hroot.2 r ((hmem r hr).mp (List.contains_iff_mem.mp hwg))
      exact absurd ((h.mem_roots r).mp hr).1 (Nat.not_lt.mpr hle)
  · intro hroot
    by_cases hnil : next w = []
    · exact Or.inl hnil
    · obtain ⟨r, hle, hr, hrw⟩ := exists_isRoot hnil
      have hne : r ≠ w := fun heq => hroot (heq ▸ hr)
      have hmr : r ∈ roots := (h.mem_roots r).mpr ⟨Nat.lt_of_le_of_ne hle hne, hr⟩
      refine Or.inr ⟨reached words next r, ?_, List.contains_iff_mem.mpr ((hmem r hmr).mpr hrw)⟩
      rw [h.groups_eq]
      exact List.mem_map_of_mem hmr

/-- A root begins a new group, behind those of the smaller roots. -/
theorem Grouped.append_root {seen : Nat} {groups : List (List Nat)} {roots : List Nat}
    (h : Grouped words next seen groups roots) (hroot : IsRoot next seen) :
    Grouped words next (seen + 1) (groups ++ [reached words next seen]) (roots ++ [seen]) := by
  refine ⟨?_, ?_, fun r => ?_⟩
  · rw [h.groups_eq, List.map_append, List.map_singleton]
  · refine List.pairwise_append.mpr ⟨h.ascending, List.pairwise_singleton _ _, ?_⟩
    intro r hr v hv
    rw [List.mem_singleton.mp hv]
    exact ((h.mem_roots r).mp hr).1
  · rw [List.mem_append, List.mem_singleton, h.mem_roots]
    constructor
    · rintro (⟨hr, hr'⟩ | rfl)
      · exact ⟨Nat.lt_succ_of_lt hr, hr'⟩
      · exact ⟨Nat.lt_succ_self r, hroot⟩
    · rintro ⟨hr, hr'⟩
      rcases Nat.lt_succ_iff_lt_or_eq.mp hr with hr | rfl
      · exact Or.inl ⟨hr, hr'⟩
      · exact Or.inr rfl

/-- A word that is no root changes nothing. -/
theorem Grouped.skip {seen : Nat} {groups : List (List Nat)} {roots : List Nat}
    (h : Grouped words next seen groups roots) (hroot : ¬IsRoot next seen) :
    Grouped words next (seen + 1) groups roots := by
  refine ⟨h.groups_eq, h.ascending, fun r => ?_⟩
  rw [h.mem_roots]
  refine and_congr_left fun hr => ⟨Nat.lt_succ_of_lt, fun hlt => ?_⟩
  rcases Nat.lt_succ_iff_lt_or_eq.mp hlt with hlt | rfl
  · exact hlt
  · exact absurd hr hroot

/-- Looking at the words that are left keeps the groups right. -/
theorem Grouped.groupsAmong (hnext : ∀ u, ∀ v ∈ next u, v < words) : ∀ (n : Nat) {seen : Nat}
    {groups : List (List Nat)} {roots : List Nat}, Grouped words next seen groups roots →
      seen + n = words → ∃ roots', Grouped words next words
        (groupsAmong words next (List.range' seen n) groups) roots'
  | 0, seen, _, roots, h, hn => by
      obtain rfl : seen = words := hn
      exact ⟨roots, h⟩
  | n + 1, seen, groups, roots, h, hn => by
      have hlt : seen < words := by omega
      rw [List.range'_succ, Search.groupsAmong]
      by_cases hroot : IsRoot next seen
      · rw [if_neg fun hskip => (h.skips_iff hnext hlt).mp hskip hroot]
        exact (h.append_root hroot).groupsAmong hnext n (by omega)
      · rw [if_pos ((h.skips_iff hnext hlt).mpr hroot)]
        exact (h.skip hroot).groupsAmong hnext n (by omega)

/-- The groups are the searches from the roots of the sentence, in ascending
order. -/
theorem groups_eq (hnext : ∀ u, ∀ v ∈ next u, v < words) :
    ∃ roots, Grouped words next words (groups words next) roots := by
  have h := (grouped_nil words next).groupsAmong hnext words (Nat.zero_add words)
  rwa [← List.range_eq_range'] at h

/-- A word's group is the one whose root leads to it. -/
theorem Grouped.findIdx?_eq_some_iff (hnext : ∀ u, ∀ v ∈ next u, v < words)
    (hsymm : ∀ u v, v ∈ next u → u ∈ next v) {groups : List (List Nat)} {roots : List Nat}
    (h : Grouped words next words groups roots) {w k : Nat} :
    groups.findIdx? (·.contains w) = some k ↔ ∃ r, roots[k]? = some r ∧ Leads next r w := by
  have hgroup : ∀ {i : Nat} {g : List Nat}, groups[i]? = some g → g.contains w = true →
      ∃ r, roots[i]? = some r ∧ IsRoot next r ∧ Leads next r w := by
    intro i g hg hw
    rw [h.groups_eq, List.getElem?_map, Option.map_eq_some_iff] at hg
    obtain ⟨r, hr, rfl⟩ := hg
    obtain ⟨hlt, hroot⟩ := (h.mem_roots r).mp (List.mem_of_getElem? hr)
    exact ⟨r, hr, hroot, (mem_reached fun v hv => hv.lt_words hnext hlt).mp
      (List.contains_iff_mem.mp hw)⟩
  have hnodup : roots.Nodup := h.ascending.imp Nat.ne_of_lt
  rw [findIdx?_eq_some_iff_of_unique]
  · constructor
    · rintro ⟨g, hg, hw⟩
      obtain ⟨r, hr, -, hrw⟩ := hgroup hg hw
      exact ⟨r, hr, hrw⟩
    · rintro ⟨r, hr, hrw⟩
      obtain ⟨hlt, -⟩ := (h.mem_roots r).mp (List.mem_of_getElem? hr)
      refine ⟨reached words next r, ?_, List.contains_iff_mem.mpr
        ((mem_reached fun v hv => hv.lt_words hnext hlt).mpr hrw)⟩
      rw [h.groups_eq, List.getElem?_map, hr, Option.map_some]
  · intro i j g g' hg hg' hw hw'
    obtain ⟨r, hr, hroot, hrw⟩ := hgroup hg hw
    obtain ⟨r', hr', hroot', hrw'⟩ := hgroup hg' hw'
    obtain rfl := hroot.eq_of_leads hsymm hroot' hrw hrw'
    obtain ⟨hi, -⟩ := List.getElem?_eq_some_iff.mp hr
    exact (List.getElem?_inj hi hnodup).mp (hr.trans hr'.symm)

/-- A word that is next to some word lies in the sentence, and so does the root
of its group. -/
theorem Grouped.exists_leads (hnext : ∀ u, ∀ v ∈ next u, v < words)
    (hsymm : ∀ u v, v ∈ next u → u ∈ next v) {groups : List (List Nat)} {roots : List Nat}
    (h : Grouped words next words groups roots) {w : Nat} (hw : next w ≠ []) :
    ∃ (k r : Nat), roots[k]? = some r ∧ Leads next r w := by
  obtain ⟨x, hx⟩ := List.exists_mem_of_ne_nil _ hw
  obtain ⟨r, hle, hroot, hrw⟩ := exists_isRoot hw
  have hlt : r < words := Nat.lt_of_le_of_lt hle (hnext x w (hsymm w x hx))
  obtain ⟨k, hk⟩ := List.mem_iff_getElem?.mp ((h.mem_roots r).mpr ⟨hlt, hroot⟩)
  exact ⟨k, r, hk, hrw⟩

/-- Words that are next to some word are in one group exactly if a path
leads from one to the other. -/
theorem findIdx?_groups_eq_iff (hnext : ∀ u, ∀ v ∈ next u, v < words)
    (hsymm : ∀ u v, v ∈ next u → u ∈ next v) {u v : Nat} (hu : next u ≠ []) :
    (groups words next).findIdx? (·.contains u) = (groups words next).findIdx? (·.contains v)
      ↔ Leads next u v := by
  obtain ⟨roots, h⟩ := groups_eq hnext
  obtain ⟨k, r, hk, hru⟩ := h.exists_leads hnext hsymm hu
  have hfind := (h.findIdx?_eq_some_iff hnext hsymm).mpr ⟨r, hk, hru⟩
  rw [hfind, eq_comm, h.findIdx?_eq_some_iff hnext hsymm]
  constructor
  · rintro ⟨r', hk', hr'v⟩
    obtain rfl := Option.some.inj (hk.symm.trans hk')
    exact (hru.symm hsymm).trans hr'v
  · intro huv
    exact ⟨r, hk, hru.trans huv⟩

end Search

end LinkParse
