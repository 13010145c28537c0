import LinkParse.Proofs.Moving
import LinkParse.Proofs.Reasons

/-!
# Two linkages side by side

`Linkage.beside` puts one sentence behind another, each with its own links.
Both linkages are embedded in the result and nothing joins them, so its
domains are those of the first and, moved, those of the second
(`domains_beside`), and checks about the surroundings of a link fail at the
links where they failed before (`mem_failures_beside`).

What is wrong with the first linkage is found first, and reported in the same
words; what is wrong with the second is found if the first is in order
(`analyze_beside`). Checks about the linkage as a whole are left out: a
sentence of two parts is not connected, and its links are more.
-/

namespace LinkParse

/-! ## Moved domains -/

namespace Domain

/-- The domain under maps of words and of links. -/
def move (word link : Nat → Nat) (x : Domain) : Domain where
  kind := x.kind
  starter := link x.starter
  start := word x.start
  last := word x.last
  members := x.members.map link

@[simp] theorem move_id (x : Domain) : x.move id id = x := by
  unfold move
  rw [List.map_id]
  rfl

theorem IsImage.eq_move {word link : Nat → Nat} {x y : Domain} (h : x.IsImage word link y)
    (hlink : StrictMono link) (hx : x.members.Pairwise (· < ·)) (hy : y.members.Pairwise (· < ·)) :
    y = x.move word link := by
  have hmembers : y.members = x.members.map link := by
    refine hy.eq_of_mem_iff (hx.map link fun _ _ hlt => hlink hlt) fun j => ?_
    rw [h.mem_members, List.mem_map]
  obtain ⟨kind, starter, start, last, members⟩ := y
  obtain rfl := h.kind_eq
  obtain rfl := h.starter_eq
  obtain rfl := h.start_eq
  obtain rfl := h.last_eq
  obtain rfl := hmembers
  rfl

/-- The order of domains in a table. -/
def Precedes (x y : Domain) : Prop := toLex (x.start, x.starter) < toLex (y.start, y.starter)

instance : Std.Antisymm Precedes := ⟨fun _ _ h h' => absurd h' h.asymm⟩

instance : Std.Irrefl Precedes := ⟨fun _ => lt_irrefl _⟩

theorem Precedes.move {word link : Nat → Nat} (hword : StrictMono word) (hlink : StrictMono link)
    {x y : Domain} (h : x.Precedes y) : (x.move word link).Precedes (y.move word link) := by
  unfold Precedes at *
  rw [Prod.Lex.toLex_lt_toLex] at *
  exact h.imp (fun hlt => hword hlt) fun ⟨heq, hlt⟩ => ⟨congrArg word heq, hlink hlt⟩

end Domain

namespace Diagram

variable {d e : Diagram} {starters : List Starter} {x y : Domain} {word link : Nat → Nat}

theorem Embeds.hasDomain_move (h : Embeds word link d e) (hlink : StrictMono link)
    (hx : d.HasDomain starters x) : e.HasDomain starters (x.move word link) := by
  obtain ⟨y, hy, himage⟩ := h.hasDomain_image hx
  rwa [← himage.eq_move hlink hx.ascending hy.ascending]

theorem Embeds.exists_eq_move (h : Embeds word link d e) (hlink : StrictMono link)
    (hy : e.HasDomain starters y) {i : Nat} {a : Arc} (ha : d.arcs[i]? = some a)
    (hi : y.starter = link i) : ∃ x, d.HasDomain starters x ∧ y = x.move word link := by
  obtain ⟨x, hx, himage, -⟩ := h.hasDomain_preimage hy ha hi
  exact ⟨x, hx, himage.eq_move hlink hx.ascending hy.ascending⟩

/-- Local checks fail at the links of a part where they fail in the part, if
no foreign domain crosses into it. -/
theorem Embeds.local_failsAt_iff (h : Embeds word link d e) {i : Nat} {a : Arc}
    (ha : d.arcs[i]? = some a)
    (houter : ∀ x y, e.HasDomain starters x → e.HasDomain starters y → y.starter = link i →
      x.CrossedBy y → ∃ k c, d.arcs[k]? = some c ∧ x.starter = link k) :
    ∀ {check : Check}, check.isLocal = true →
      (check.FailsAt starters e (link i) ↔ check.FailsAt starters d i)
  | .containment _ _, _ => h.containment_failsAt_iff ha houter
  | .bounded _, _ => h.bounded_failsAt_iff ha
  | .ordering _ _ _, _ => h.ordering_failsAt_iff ha
  | .companion _ _ scope _, hlocal => by
      obtain rfl : scope = .domain := by simpa [Check.isLocal] using hlocal
      exact h.companion_domain_failsAt_iff ha
  | .cycle _, _ => h.cycle_failsAt_iff ha

end Diagram

/-! ## The linkage of two parts -/

namespace Linkage

theorem strictMono_words (a : Linkage) : StrictMono (a.words + ·) :=
  fun _ _ hlt => Nat.add_lt_add_left hlt _

theorem strictMono_size (a : Linkage) : StrictMono (a.size + ·) :=
  fun _ _ hlt => Nat.add_lt_add_left hlt _

/-- The links of `a` and, behind its words, the links of `b`. -/
def beside (a b : Linkage) (cost : Binary64) (cost_finite : cost.isFinite = true) : Linkage where
  words := a.words + b.words
  links := a.links ++ b.links.map (·.move (a.words + ·) a.strictMono_words)
  cost
  cost_finite
  right_lt_words := by
    intro l hl
    rcases List.mem_append.mp hl with hl | hl
    · exact Nat.lt_add_right _ (a.right_lt_words l hl)
    · obtain ⟨m, hm, rfl⟩ := List.mem_map.mp hl
      exact Nat.add_lt_add_left (b.right_lt_words m hm) _
  connectors_agree := by
    -- links of different parts never join the same words
    have hapart : ∀ l ∈ a.links, ∀ m : Link, l.left ≠ a.words + m.left := fun l hl m => by
      have hlt := l.left_lt_right.trans (a.right_lt_words l hl)
      omega
    intro l hl l' hl' ends
    rcases List.mem_append.mp hl with hl | hl
    · rcases List.mem_append.mp hl' with hl' | hl'
      · exact a.connectors_agree l hl l' hl' ends
      · obtain ⟨m', -, rfl⟩ := List.mem_map.mp hl'
        simp only [Link.joinsSameWords, Link.move, Bool.and_eq_true, beq_iff_eq] at ends
        exact absurd ends.1 (hapart l hl m')
    · obtain ⟨m, hm, rfl⟩ := List.mem_map.mp hl
      rcases List.mem_append.mp hl' with hl' | hl'
      · simp only [Link.joinsSameWords, Link.move, Bool.and_eq_true, beq_iff_eq] at ends
        exact absurd ends.1.symm (hapart l' hl' m)
      · obtain ⟨m', hm', rfl⟩ := List.mem_map.mp hl'
        refine b.connectors_agree m hm m' hm' ?_
        simpa [Link.joinsSameWords, Link.move] using ends

variable {a b : Linkage} {cost : Binary64} {cost_finite : cost.isFinite = true} {rules : RuleSet}
  {i : Nat} {l : Link}

theorem isLabeled_beside (cost_finite : cost.isFinite = true) (ha : a.isLabeled = true)
    (hb : b.isLabeled = true) :
    (a.beside b cost cost_finite).isLabeled = true := by
  unfold isLabeled at *
  rw [List.all_eq_true] at *
  intro l hl
  rcases List.mem_append.mp hl with hl | hl
  · exact ha l hl
  · obtain ⟨m, hm, rfl⟩ := List.mem_map.mp hl
    exact hb m hm

theorem getElem?_beside_left (h : a.links[i]? = some l) :
    (a.beside b cost cost_finite).links[i]? = some l := by
  obtain ⟨hi, -⟩ := List.getElem?_eq_some_iff.mp h
  exact (List.getElem?_append_left hi).trans h

theorem getElem?_beside_right (h : b.links[i]? = some l) :
    (a.beside b cost cost_finite).links[a.size + i]?
      = some (l.move (a.words + ·) a.strictMono_words) := by
  refine (List.getElem?_append_right (Nat.le_add_right _ _)).trans ?_
  rw [Nat.add_sub_cancel_left, List.getElem?_map, h]
  rfl

/-- A link of the two parts is one of the first or a moved one of the
second. -/
theorem getElem?_beside_cases (h : (a.beside b cost cost_finite).links[i]? = some l) :
    a.links[i]? = some l ∨ ∃ j m, i = a.size + j ∧ b.links[j]? = some m ∧
      l = m.move (a.words + ·) a.strictMono_words := by
  rcases Nat.lt_or_ge i a.links.length with hi | hi
  · exact .inl ((List.getElem?_append_left hi).symm.trans h)
  · have hmap := (List.getElem?_append_right hi).symm.trans h
    rw [List.getElem?_map, Option.map_eq_some_iff] at hmap
    obtain ⟨m, hm, rfl⟩ := hmap
    exact .inr ⟨i - a.links.length, m, (Nat.add_sub_cancel' hi).symm, hm, rfl⟩

theorem lt_words_of_isLinked {k : Linkage} {w : Nat} (h : Diagram.IsLinked k.diagram.arcs w) :
    w < k.words := by
  obtain ⟨c, hc, hends⟩ := h
  have hright := k.diagram.right_lt_words c hc
  have hlt := c.left_lt_right
  have hwords : k.diagram.words = k.words := rfl
  omega

theorem embeds_beside_left (a b : Linkage) (cost_finite : cost.isFinite = true) :
    Diagram.Embeds id id a.diagram (a.beside b cost cost_finite).diagram where
  word_lt _ _ _ _ hlt := hlt
  link_inj _ _ _ _ heq := heq
  exists_image i c hc := by
    obtain ⟨l, hl, rfl⟩ := getElem?_arcs_diagram.mp hc
    exact ⟨l.arc, getElem?_arcs_diagram.mpr ⟨l, getElem?_beside_left hl, rfl⟩, rfl, rfl, rfl⟩
  closed j c u hc hu hends := by
    have hlt := lt_words_of_isLinked hu
    obtain ⟨l, hl, rfl⟩ := getElem?_arcs_diagram.mp hc
    rcases getElem?_beside_cases hl with hl | ⟨i, m, -, -, rfl⟩
    · exact ⟨j, l.arc, getElem?_arcs_diagram.mpr ⟨l, hl, rfl⟩, rfl⟩
    · -- a link of the second part ends behind the first
      have hleft : (m.move (a.words + ·) a.strictMono_words).arc.left = a.words + m.left := rfl
      have hright : (m.move (a.words + ·) a.strictMono_words).arc.right = a.words + m.right := rfl
      rw [hleft, hright, id_eq] at hends
      omega

theorem embeds_beside_right (a b : Linkage) (cost_finite : cost.isFinite = true) :
    Diagram.Embeds (a.words + ·) (a.size + ·) b.diagram (a.beside b cost cost_finite).diagram where
  word_lt _ _ _ _ hlt := Nat.add_lt_add_left hlt _
  link_inj _ _ _ _ heq := Nat.add_left_cancel heq
  exists_image i c hc := by
    obtain ⟨l, hl, rfl⟩ := getElem?_arcs_diagram.mp hc
    exact ⟨_, getElem?_arcs_diagram.mpr ⟨_, getElem?_beside_right hl, rfl⟩, rfl, rfl, rfl⟩
  closed j c u hc hu hends := by
    obtain ⟨l, hl, rfl⟩ := getElem?_arcs_diagram.mp hc
    rcases getElem?_beside_cases hl with hl | ⟨i, m, rfl, hm, rfl⟩
    · -- a link of the first part ends before the second
      have hright : l.arc.right < a.words := a.right_lt_words l (List.mem_of_getElem? hl)
      have hlt := l.arc.left_lt_right
      omega
    · exact ⟨i, m.arc, getElem?_arcs_diagram.mpr ⟨m, hm, rfl⟩, rfl⟩

/-! ## Domains -/

variable {starters : List Starter} {x y : Domain}

theorem hasDomain_beside_iff :
    (a.beside b cost cost_finite).diagram.HasDomain starters x ↔
      a.diagram.HasDomain starters x ∨
        ∃ y, b.diagram.HasDomain starters y ∧ y.move (a.words + ·) (a.size + ·) = x := by
  have hleft := embeds_beside_left a b cost_finite
  have hright := embeds_beside_right a b cost_finite
  constructor
  · intro hx
    obtain ⟨c, hc, -⟩ := hx.getElem?_starter
    obtain ⟨l, hl, rfl⟩ := getElem?_arcs_diagram.mp hc
    rcases getElem?_beside_cases hl with hl | ⟨i, m, hi, hm, rfl⟩
    · obtain ⟨y, hy, rfl⟩ := hleft.exists_eq_move strictMono_id hx
        (getElem?_arcs_diagram.mpr ⟨l, hl, rfl⟩) rfl
      rw [Domain.move_id]
      exact .inl hy
    · obtain ⟨y, hy, rfl⟩ := hright.exists_eq_move a.strictMono_size hx
        (getElem?_arcs_diagram.mpr ⟨m, hm, rfl⟩) hi
      exact .inr ⟨y, hy, rfl⟩
  · rintro (hx | ⟨y, hy, rfl⟩)
    · have hmove := hleft.hasDomain_move strictMono_id hx
      rwa [Domain.move_id] at hmove
    · exact hright.hasDomain_move a.strictMono_size hy

/-- The domains of two parts are those of the first and, moved, those of the
second. -/
theorem domains_beside (a b : Linkage) (cost : Binary64) (cost_finite : cost.isFinite = true)
    (rules : RuleSet) :
    (DomainTable.ofDiagram rules (a.beside b cost cost_finite).diagram).domains =
      (DomainTable.ofDiagram rules a.diagram).domains ++
        (DomainTable.ofDiagram rules b.diagram).domains.map
          (Domain.move (a.words + ·) (a.size + ·)) := by
  have hparts : ((DomainTable.ofDiagram rules a.diagram).domains ++
      (DomainTable.ofDiagram rules b.diagram).domains.map
        (Domain.move (a.words + ·) (a.size + ·))).Pairwise Domain.Precedes := by
    refine List.pairwise_append.mpr ⟨DomainTable.pairwise_domains rules a.diagram, ?_, ?_⟩
    · refine List.pairwise_map.mpr ((DomainTable.pairwise_domains rules b.diagram).imp ?_)
      exact Domain.Precedes.move a.strictMono_words a.strictMono_size
    · intro x hx y hy
      obtain ⟨z, -, rfl⟩ := List.mem_map.mp hy
      have hlt := lt_words_of_isLinked (DomainTable.mem_domains.mp hx).isLinked_start
      exact Prod.Lex.toLex_lt_toLex.mpr (.inl (Nat.lt_add_right z.start hlt))
  refine (show List.Pairwise Domain.Precedes _ from
    DomainTable.pairwise_domains rules _).eq_of_mem_iff hparts fun x => ?_
  rw [DomainTable.mem_domains, hasDomain_beside_iff, List.mem_append, List.mem_map]
  simp only [DomainTable.mem_domains]

/-! ## Failures -/

/-- Local checks fail at the links of the first part as before: a domain that
crosses one of them starts before it. -/
theorem failsAt_beside_left {check : Check} (hlocal : check.isLocal = true) {c : Arc}
    (hc : a.diagram.arcs[i]? = some c) :
    check.FailsAt starters (a.beside b cost cost_finite).diagram i ↔
      check.FailsAt starters a.diagram i := by
  have hembeds := embeds_beside_left a b cost_finite
  refine hembeds.local_failsAt_iff hc (fun x y hx hy hi hcross => ?_) hlocal
  obtain ⟨y', hy', rfl⟩ := hembeds.exists_eq_move strictMono_id hy hc hi
  rcases hasDomain_beside_iff.mp hx with hx | ⟨z, hz, rfl⟩
  · obtain ⟨f, hf, -⟩ := hx.getElem?_starter
    exact ⟨_, f, hf, rfl⟩
  · have hlt := lt_words_of_isLinked hy'.isLinked_start
    have hstart : a.words + z.start < y'.start := hcross.1
    omega

/-- A domain that crosses one of the second part ends behind the first. -/
theorem failsAt_beside_right {check : Check} (hlocal : check.isLocal = true) {c : Arc}
    (hc : b.diagram.arcs[i]? = some c) :
    check.FailsAt starters (a.beside b cost cost_finite).diagram (a.size + i) ↔
      check.FailsAt starters b.diagram i := by
  have hembeds := embeds_beside_right a b cost_finite
  refine hembeds.local_failsAt_iff hc (fun x y hx hy hi hcross => ?_) hlocal
  obtain ⟨y', -, rfl⟩ := hembeds.exists_eq_move a.strictMono_size hy hc hi
  rcases hasDomain_beside_iff.mp hx with hx | ⟨z, hz, rfl⟩
  · have hlt := lt_words_of_isLinked hx.isLinked_last
    have hlast : a.words + y'.start < x.last := hcross.2.1
    omega
  · obtain ⟨f, hf, -⟩ := hz.getElem?_starter
    exact ⟨_, f, hf, rfl⟩

/-- The failures of two parts are those of the first and, moved, those of the
second. -/
theorem mem_failures_beside (hlocal : ∀ rule ∈ rules.rules, rule.check.isLocal = true)
    {v j p : Nat} :
    toLex (v, toLex (j, p)) ∈ (a.beside b cost cost_finite).diagram.failures rules ↔
      toLex (v, toLex (j, p)) ∈ a.diagram.failures rules ∨
        ∃ w i, a.words + w = v ∧ a.size + i = j ∧
          toLex (w, toLex (i, p)) ∈ b.diagram.failures rules := by
  simp only [Diagram.mem_failures_iff]
  constructor
  · rintro ⟨c, rule, hc, hrule, hfails, rfl⟩
    have hlocal := hlocal rule (List.mem_of_getElem? hrule)
    obtain ⟨l, hl, rfl⟩ := getElem?_arcs_diagram.mp hc
    rcases getElem?_beside_cases hl with hl | ⟨i, m, rfl, hm, rfl⟩
    · have hc := getElem?_arcs_diagram.mpr ⟨l, hl, rfl⟩
      exact .inl ⟨l.arc, rule, hc, hrule, (failsAt_beside_left hlocal hc).mp hfails, rfl⟩
    · have hc := getElem?_arcs_diagram.mpr ⟨m, hm, rfl⟩
      exact .inr ⟨m.left, i, rfl, rfl, m.arc, rule, hc, hrule,
        (failsAt_beside_right hlocal hc).mp hfails, rfl⟩
  · rintro (⟨c, rule, hc, hrule, hfails, rfl⟩ | ⟨w, i, rfl, rfl, c, rule, hc, hrule, hfails, rfl⟩)
    · have hlocal := hlocal rule (List.mem_of_getElem? hrule)
      obtain ⟨l, hl, rfl⟩ := getElem?_arcs_diagram.mp hc
      exact ⟨l.arc, rule, getElem?_arcs_diagram.mpr ⟨l, getElem?_beside_left hl, rfl⟩, hrule,
        (failsAt_beside_left hlocal hc).mpr hfails, rfl⟩
    · have hlocal := hlocal rule (List.mem_of_getElem? hrule)
      obtain ⟨m, hm, rfl⟩ := getElem?_arcs_diagram.mp hc
      exact ⟨_, rule, getElem?_arcs_diagram.mpr ⟨_, getElem?_beside_right hm, rfl⟩, hrule,
        (failsAt_beside_right hlocal hc).mpr hfails, rfl⟩

/-- The first failure of the first part is the first of all. -/
theorem isLeast_failures_beside (b : Linkage) (cost_finite : cost.isFinite = true)
    (hlocal : ∀ rule ∈ rules.rules, rule.check.isLocal = true) {v j p : Nat}
    (h : IsLeast (a.diagram.failures rules) (toLex (v, toLex (j, p)))) :
    IsLeast ((a.beside b cost cost_finite).diagram.failures rules) (toLex (v, toLex (j, p))) := by
  refine ⟨(mem_failures_beside hlocal).mpr (.inl h.1), fun place hplace => ?_⟩
  rcases (mem_failures_beside hlocal).mp hplace with hmem | ⟨w, i, hw, -, -⟩
  · exact h.2 hmem
  · obtain ⟨c, rule, hc, -, -, rfl⟩ := Diagram.mem_failures_iff.mp h.1
    have hlt := lt_words_of_isLinked ⟨c, List.mem_of_getElem? hc, .inl rfl⟩
    show toLex (c.left, _) ≤ toLex (place.1, place.2)
    refine Prod.Lex.toLex_le_toLex.mpr (.inl ?_)
    show c.left < place.1
    rw [← hw]
    omega

theorem shortfalls_eq_empty_of_isLocal (hlocal : ∀ rule ∈ rules.rules, rule.check.isLocal = true)
    (d : Diagram) : d.shortfalls rules = ∅ := by
  refine Diagram.shortfalls_eq_empty_iff.mpr fun rule hrule => ?_
  rintro ⟨count, hcheck, -⟩
  have hno := hlocal rule hrule
  rw [hcheck] at hno
  cases hno

/-! ## Verdicts -/

/-- The table of the two parts begins with that of the first. -/
theorem isHeadOf_beside (a b : Linkage) (cost : Binary64) (cost_finite : cost.isFinite = true)
    (rules : RuleSet) :
    (DomainTable.ofDiagram rules a.diagram).IsHeadOf
      (DomainTable.ofDiagram rules (a.beside b cost cost_finite).diagram) where
  arcs := by
    show a.links.map Link.arc <+: (a.links ++ _).map Link.arc
    rw [List.map_append]
    exact List.prefix_append ..
  onCycle_eq i hi := by
    obtain ⟨c, hc⟩ : ∃ c, a.diagram.arcs[i]? = some c := ⟨_, List.getElem?_eq_getElem hi⟩
    have hembeds := embeds_beside_left a b cost_finite
    obtain ⟨c', hc', himage⟩ := hembeds.exists_image i c hc
    have hmem := List.mem_of_getElem? hc
    rw [id_eq] at hc'
    rw [Bool.eq_iff_iff, DomainTable.onCycle_iff hc', DomainTable.onCycle_iff hc,
      himage.left_eq, himage.right_eq]
    exact hembeds.connected_eraseIdx_image_iff hc ⟨_, hmem, .inl rfl⟩ ⟨_, hmem, .inr rfl⟩
  own x hx := (DomainTable.mem_domains.mp hx).isBelow
  domains := by
    refine ⟨_, domains_beside a b cost cost_finite rules, fun x hx => ?_⟩
    obtain ⟨y, -, rfl⟩ := List.mem_map.mp hx
    have hsize : (DomainTable.ofDiagram rules a.diagram).diagram.arcs.length = a.size :=
      length_arcs_diagram a
    rw [hsize]
    refine ⟨Nat.le_add_right _ _, fun j hj => ?_⟩
    obtain ⟨i, -, rfl⟩ := List.mem_map.mp hj
    exact Nat.le_add_right _ _

/-- What is wrong with the first part is wrong with the two, in the same
words. -/
theorem analyze_beside_of_violated (b : Linkage) (cost_finite : cost.isFinite = true)
    (hlocal : ∀ rule ∈ rules.rules, rule.check.isLocal = true) {v : Violation}
    (hv : a.diagram.analyze rules = .violated v) :
    (a.beside b cost cost_finite).diagram.analyze rules = .violated v := by
  have hd := Diagram.judged_analyze a.diagram rules
  have he := Diagram.judged_analyze (a.beside b cost cost_finite).diagram rules
  have hshort := shortfalls_eq_empty_of_isLocal hlocal
  rw [hv] at hd
  cases hd with
  | tooFew hp => exact absurd hp.1 (hshort a.diagram ▸ Set.notMem_empty _)
  | @blamed i p c rule _ _ hc hrule hleast hfound =>
      have hleast' := isLeast_failures_beside b cost_finite hlocal hleast
      cases hw : (a.beside b cost cost_finite).diagram.analyze rules with
      | wellFormed =>
          have hnone := (Diagram.analyze_eq_wellFormed_iff.mp hw).2
          exact absurd hleast'.1 (hnone ▸ Set.notMem_empty _)
      | violated w =>
          rw [hw] at he
          cases he with
          | tooFew hp => exact absurd hp.1 (hshort _ ▸ Set.notMem_empty _)
          | @blamed j q c' rule' _ _ hc' hrule' hother hfound' =>
              have hplace := toLex_inj.mp (hother.unique hleast')
              obtain ⟨rfl, rfl⟩ := Prod.mk.inj (toLex_inj.mp (Prod.mk.inj hplace).2)
              obtain rfl := Option.some.inj (hrule.symm.trans hrule')
              have hi := (List.getElem?_eq_some_iff.mp hc).1
              have hhead := isHeadOf_beside a b cost cost_finite rules
              have hsame := (hhead.getElem?_arcs hi).trans hc
              obtain rfl : c' = c := Option.some.inj (hc'.symm.trans hsame)
              have hlocal := hlocal rule (List.mem_of_getElem? hrule)
              rw [hhead.violationAt?_eq hi hlocal, hfound] at hfound'
              rw [Option.some.inj hfound']

/-- Where nothing is wrong with the first part, the verdict on the two is the
moved verdict on the second. -/
theorem analyze_beside_of_wellFormed (b : Linkage) (cost_finite : cost.isFinite = true)
    (hlocal : ∀ rule ∈ rules.rules, rule.check.isLocal = true)
    (ha : a.diagram.analyze rules = .wellFormed) :
    (b.diagram.analyze rules = .wellFormed ∧
      (a.beside b cost cost_finite).diagram.analyze rules = .wellFormed) ∨
    ∃ v w i, b.diagram.analyze rules = .violated v ∧
      (a.beside b cost cost_finite).diagram.analyze rules = .violated w ∧
      v.link = some i ∧ w.link = some (a.size + i) ∧ w.rule = v.rule := by
  have hshort := shortfalls_eq_empty_of_isLocal hlocal
  have hnone := (Diagram.analyze_eq_wellFormed_iff.mp ha).2
  have hfail : Diagram.FailuresMoved (a.words + ·) (a.size + ·) b.diagram
      (a.beside b cost cost_finite).diagram rules := by
    intro v j p
    rw [mem_failures_beside hlocal, hnone]
    exact or_iff_right (Set.notMem_empty _)
  rcases Diagram.analyze_image a.strictMono_words a.strictMono_size
    ((hshort _).trans (hshort _).symm) hfail with hwell | ⟨v, w, hv, hw, hrule, hlink⟩
  · exact .inl hwell
  · have hd := Diagram.judged_analyze b.diagram rules
    rw [hv] at hd
    cases hd with
    | tooFew hp => exact absurd hp.1 (hshort b.diagram ▸ Set.notMem_empty _)
    | blamed _ _ _ _ hfound =>
        have hvlink := (Rule.violationAt?_eq_some hfound).1
        rw [hvlink] at hlink
        exact .inr ⟨v, w, _, hv, hw, hvlink, hlink, hrule⟩

/-- Two labeled linkages side by side under rules that look at the
surroundings of links. The verdict is the first one's violation, or else the
second one's at the link's new number, or else there is none; and the domains
are those of the first, followed by the moved domains of the second. -/
theorem analyze_beside (a b : Linkage) (cost : Binary64) (cost_finite : cost.isFinite = true)
    (ha : a.isLabeled = true) (hb : b.isLabeled = true) (rules : RuleSet)
    (hlocal : ∀ rule ∈ rules.rules, rule.check.isLocal = true) :
    ((∃ v, a.analyze rules = .ok (.violated v) ∧
        (a.beside b cost cost_finite).analyze rules = .ok (.violated v)) ∨
      (a.analyze rules = .ok .wellFormed ∧ ∃ v w i, b.analyze rules = .ok (.violated v) ∧
        (a.beside b cost cost_finite).analyze rules = .ok (.violated w) ∧
        v.link = some i ∧ w.link = some (a.size + i) ∧ w.rule = v.rule) ∨
      (a.analyze rules = .ok .wellFormed ∧ b.analyze rules = .ok .wellFormed ∧
        (a.beside b cost cost_finite).analyze rules = .ok .wellFormed)) ∧
    ∃ t u both, a.domainTable rules = .ok t ∧ b.domainTable rules = .ok u ∧
      (a.beside b cost cost_finite).domainTable rules = .ok both ∧
      both.domains = t.domains ++ u.domains.map (Domain.move (a.words + ·) (a.size + ·)) := by
  have hboth := isLabeled_beside cost_finite ha hb
  constructor
  · rw [analyze_of_isLabeled ha, analyze_of_isLabeled hb, analyze_of_isLabeled hboth]
    simp only [Except.ok.injEq]
    cases hv : a.diagram.analyze rules with
    | violated v => exact .inl ⟨v, rfl, analyze_beside_of_violated b cost_finite hlocal hv⟩
    | wellFormed =>
        rcases analyze_beside_of_wellFormed b cost_finite hlocal hv with
          ⟨hwell, hwell'⟩ | hviolated
        · exact .inr (.inr ⟨rfl, hwell, hwell'⟩)
        · exact .inr (.inl ⟨rfl, hviolated⟩)
  · exact ⟨_, _, _, domainTable_of_isLabeled ha rules, domainTable_of_isLabeled hb rules,
      domainTable_of_isLabeled hboth rules, domains_beside a b cost cost_finite rules⟩

end Linkage

namespace Sample

/-- No clauses cross. -/
def crossingCheck : RuleSet where
  starters := [{ pattern := clausePattern, domain := "clause" }]
  rules := [{ id := ⟨"clause", "no-crossing"⟩, check := .containment "clause" [] }]

theorem isLocal_crossingCheck : ∀ rule ∈ crossingCheck.rules, rule.check.isLocal = true := by
  decide +kernel

theorem nested_crossingCheck : nested.analyze crossingCheck = .ok .wellFormed := by decide +kernel

theorem crossing_crossingCheck : crossing.analyze crossingCheck = .ok (.violated
    ⟨⟨"clause", "no-crossing"⟩, some 1,
      "clause domain opened by Cb (1, 5) crosses clause domain opened by Ca (0, 3)"⟩) := by
  decide +kernel

end Sample

/-- Behind the nested clauses the crossing ones are blamed at the second of
their links. -/
theorem Linkage.analyze_beside_crossing : Sample.nested.isLabeled = true ∧
    Sample.crossing.isLabeled = true ∧
    (∀ rule ∈ Sample.crossingCheck.rules, rule.check.isLocal = true) ∧
    ∃ w, (Sample.nested.beside Sample.crossing .zero Binary64.isFinite_zero).analyze
        Sample.crossingCheck = .ok (.violated w) ∧
      w.link = some (Sample.nested.size + 1) ∧ w.rule = ⟨"clause", "no-crossing"⟩ := by
  refine ⟨Sample.isLabeled_nested, Sample.isLabeled_crossing, Sample.isLocal_crossingCheck, ?_⟩
  obtain ⟨hverdict, -⟩ := Linkage.analyze_beside Sample.nested Sample.crossing .zero
    Binary64.isFinite_zero Sample.isLabeled_nested Sample.isLabeled_crossing Sample.crossingCheck
    Sample.isLocal_crossingCheck
  rcases hverdict with ⟨v, hv, -⟩ | ⟨-, v, w, i, hv, hw, hvlink, hwlink, hrule⟩ | ⟨-, hv, -⟩
  · rw [Sample.nested_crossingCheck] at hv
    cases hv
  · rw [Sample.crossing_crossingCheck] at hv
    cases hv
    obtain rfl := Option.some.inj hvlink
    exact ⟨w, hw, hwlink, hrule⟩
  · rw [Sample.crossing_crossingCheck] at hv
    cases hv

end LinkParse
