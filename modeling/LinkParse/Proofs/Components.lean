import LinkParse.Proofs.Embedding
import LinkParse.Proofs.Nesting
import LinkParse.Proofs.Numbering

/-!
# Components

The component number of a word is the position of its group. Here it is said
by the links: a route is a list of links of which each goes on where the one
before it ends (`Linkage.IsRoute`), and words have one number exactly if a
route leads from one to the other.

The numbers of a labeled linkage are those below the count of its components,
in the order of the components' smallest words (`domainTable_components`). So
the leftmost linked word, where the first link in canonical order begins, has
number zero, and a check that all links are connected compares with it.
-/

namespace LinkParse

/-! ## A sentence to try -/

/-- Two components that lie across each other, with null words between and
before them. -/
def Sample.scattered : Linkage :=
  Sentence.labeled? ⟨7, [(2, 5, "Ds"), (1, 3, "Ss"), (3, 6, "Os")], 0⟩ |>.get (by decide +kernel)

/-! ## Groups by their smallest words -/

namespace Search

variable {next : Nat → List Nat} {words : Nat} {groups : List (List Nat)} {roots : List Nat}

theorem Grouped.length_eq (h : Grouped words next words groups roots) :
    groups.length = roots.length := by
  rw [h.groups_eq, List.length_map]

/-- A word is in no group exactly if it is next to none. -/
theorem Grouped.findIdx?_eq_none_iff (hnext : ∀ u, ∀ v ∈ next u, v < words)
    (hsymm : ∀ u v, v ∈ next u → u ∈ next v) (h : Grouped words next words groups roots) {w : Nat} :
    groups.findIdx? (·.contains w) = none ↔ next w = [] := by
  constructor
  · intro hnone
    by_contra hw
    obtain ⟨k, r, hk, hrw⟩ := h.exists_leads hnext hsymm hw
    rw [(h.findIdx?_eq_some_iff hnext hsymm).mpr ⟨r, hk, hrw⟩] at hnone
    cases hnone
  · intro hw
    cases hfind : groups.findIdx? (·.contains w) with
    | none => rfl
    | some k =>
        obtain ⟨r, hr, hrw⟩ := (h.findIdx?_eq_some_iff hnext hsymm).mp hfind
        obtain ⟨-, hroot⟩ := (h.mem_roots r).mp (List.mem_of_getElem? hr)
        rcases hrw.cases_tail with rfl | ⟨v, -, hv⟩
        · exact absurd hw hroot.1
        · have hmem := hsymm v w hv
          rw [hw] at hmem
          cases hmem

/-- The smallest word of a group is its root. -/
theorem Grouped.isLeast_iff (hnext : ∀ u, ∀ v ∈ next u, v < words)
    (hsymm : ∀ u v, v ∈ next u → u ∈ next v) (h : Grouped words next words groups roots)
    {k r : Nat} : IsLeast {w | groups.findIdx? (·.contains w) = some k} r ↔ roots[k]? = some r := by
  have hleast : ∀ {r}, roots[k]? = some r →
      IsLeast {w | groups.findIdx? (·.contains w) = some k} r := by
    intro r hr
    obtain ⟨-, hroot⟩ := (h.mem_roots r).mp (List.mem_of_getElem? hr)
    refine ⟨(h.findIdx?_eq_some_iff hnext hsymm).mpr ⟨r, hr, Relation.ReflTransGen.refl⟩, ?_⟩
    intro w hw
    obtain ⟨r', hr', hlead⟩ := (h.findIdx?_eq_some_iff hnext hsymm).mp hw
    obtain rfl := Option.some.inj (hr.symm.trans hr')
    exact hroot.2 w (hlead.symm hsymm)
  refine ⟨fun hr => ?_, hleast⟩
  obtain ⟨r', hr', -⟩ := (h.findIdx?_eq_some_iff hnext hsymm).mp hr.1
  rwa [hr.unique (hleast hr')]

end Search

/-! ## Components of a diagram -/

namespace DomainTable

variable {rules : RuleSet} {d : Diagram} {m n u v w : Nat}

theorem componentOf?_eq_none_iff :
    (ofDiagram rules d).componentOf? w = none ↔ ¬Diagram.IsLinked d.arcs w := by
  have hnext := Diagram.lt_of_mem_neighboursBy d.right_lt_words
  obtain ⟨roots, h⟩ := Search.groups_eq hnext
  rw [← Diagram.neighboursBy_ne_nil_iff, not_not]
  exact h.findIdx?_eq_none_iff hnext (Diagram.mem_neighboursBy_symm d.arcs)

/-- The components have roots, one for each number, and these ascend. -/
theorem exists_roots (rules : RuleSet) (d : Diagram) : ∃ roots : List Nat,
    roots.Pairwise (· < ·) ∧ roots.length = (ofDiagram rules d).groups.length ∧
      ∀ n r, IsLeast {w | (ofDiagram rules d).componentOf? w = some n} r ↔ roots[n]? = some r := by
  have hnext := Diagram.lt_of_mem_neighboursBy d.right_lt_words
  obtain ⟨roots, h⟩ := Search.groups_eq hnext
  exact ⟨roots, h.ascending, h.length_eq.symm, fun n r =>
    h.isLeast_iff hnext (Diagram.mem_neighboursBy_symm d.arcs)⟩

theorem exists_componentOf?_eq_some (rules : RuleSet) (hw : Diagram.IsLinked d.arcs w) :
    ∃ n, (ofDiagram rules d).componentOf? w = some n := by
  rw [← Option.ne_none_iff_exists']
  exact fun hnone => componentOf?_eq_none_iff.mp hnone hw

theorem isLinked_of_componentOf? (hw : (ofDiagram rules d).componentOf? w = some n) :
    Diagram.IsLinked d.arcs w := by
  by_contra hnot
  rw [componentOf?_eq_none_iff.mpr hnot] at hw
  cases hw

/-- Two words have a component, and the same one, exactly if the first is
linked and connected with the second. -/
theorem exists_componentOf?_iff :
    (∃ n, (ofDiagram rules d).componentOf? u = some n ∧ (ofDiagram rules d).componentOf? v = some n)
      ↔ Diagram.IsLinked d.arcs u ∧ Diagram.Connected d.arcs u v := by
  constructor
  · rintro ⟨n, hu, hv⟩
    have hlinked := isLinked_of_componentOf? hu
    exact ⟨hlinked, (componentOf?_eq_iff hlinked).mp (hu.trans hv.symm)⟩
  · rintro ⟨hlinked, hconnected⟩
    obtain ⟨n, hu⟩ := exists_componentOf?_eq_some rules hlinked
    exact ⟨n, hu, ((componentOf?_eq_iff hlinked).mpr hconnected).symm.trans hu⟩

/-- The numbers in use are those below the count of the groups, each of which
has a smallest word. -/
theorem exists_isLeast_componentOf?_iff :
    (∃ r, IsLeast {w | (ofDiagram rules d).componentOf? w = some n} r)
      ↔ n < (ofDiagram rules d).groups.length := by
  obtain ⟨roots, -, hlength, hleast⟩ := exists_roots rules d
  rw [← hlength]
  constructor
  · rintro ⟨r, hr⟩
    exact (List.getElem?_eq_some_iff.mp ((hleast n r).mp hr)).1
  · intro hn
    exact ⟨_, (hleast n _).mpr (List.getElem?_eq_getElem hn)⟩

theorem exists_componentOf?_eq_some_iff :
    (∃ w, (ofDiagram rules d).componentOf? w = some n)
      ↔ n < (ofDiagram rules d).groups.length := by
  constructor
  · rintro ⟨w, hw⟩
    exact (List.findIdx?_eq_some_iff_getElem.mp hw).1
  · intro hn
    obtain ⟨r, hr⟩ := exists_isLeast_componentOf?_iff.mpr hn
    exact ⟨r, hr.1⟩

/-- Numbers ascend with the smallest words of their components. -/
theorem lt_of_isLeast_componentOf?
    (hu : IsLeast {w | (ofDiagram rules d).componentOf? w = some m} u)
    (hv : IsLeast {w | (ofDiagram rules d).componentOf? w = some n} v) (hmn : m < n) : u < v := by
  obtain ⟨roots, hascending, -, hleast⟩ := exists_roots rules d
  obtain ⟨hm, rfl⟩ := List.getElem?_eq_some_iff.mp ((hleast m u).mp hu)
  obtain ⟨hn, rfl⟩ := List.getElem?_eq_some_iff.mp ((hleast n v).mp hv)
  exact List.pairwise_iff_getElem.mp hascending m n hm hn hmn

/-- The leftmost linked word has number zero: a component with a smaller
number would have a smaller word. -/
theorem componentOf?_eq_zero (hw : IsLeast {w | Diagram.IsLinked d.arcs w} w) :
    (ofDiagram rules d).componentOf? w = some 0 := by
  obtain ⟨n, hn⟩ := exists_componentOf?_eq_some rules hw.1
  rcases Nat.eq_zero_or_pos n with rfl | hpos
  · exact hn
  · have hlt := exists_componentOf?_eq_some_iff.mp ⟨w, hn⟩
    obtain ⟨u, hu⟩ := exists_isLeast_componentOf?_iff.mpr (Nat.lt_trans hpos hlt)
    obtain ⟨v, hv⟩ := exists_isLeast_componentOf?_iff.mpr hlt
    have huv := lt_of_isLeast_componentOf? hu hv hpos
    have hvw : v ≤ w := hv.2 hn
    have hwu : w ≤ u := hw.2 (isLinked_of_componentOf? hu.1)
    omega

theorem firstComponent?_eq {p : Arc × Nat} (hp : d.canonical.head? = some p) :
    (ofDiagram rules d).firstComponent? = some 0 := by
  unfold firstComponent?
  rw [show (ofDiagram rules d).diagram.canonical.head? = some p from hp]
  exact componentOf?_eq_zero (Diagram.isLeast_of_head?_canonical hp)

theorem components_eq : (ofDiagram rules d).components
    = (List.range d.words).map (ofDiagram rules d).componentOf? :=
  Search.numbers_eq (Diagram.lt_of_mem_neighboursBy d.right_lt_words)
    (Diagram.mem_neighboursBy_symm d.arcs)

end DomainTable

/-! ## Routes of links -/

namespace Linkage

/-- The links with these numbers, one after the other, lead from one word to
another. A route may use a link in either direction and more than once. -/
inductive IsRoute (k : Linkage) : Nat → List Nat → Nat → Prop where
  | nil (w : Nat) : IsRoute k w [] w
  | cons {u v w i : Nat} {is : List Nat} {l : Link} (hl : k.links[i]? = some l)
      (hjoins : (l.left = u ∧ l.right = v) ∨ (l.left = v ∧ l.right = u))
      (hrest : IsRoute k v is w) : IsRoute k u (i :: is) w

variable {k : Linkage} {rules : RuleSet} {u v w : Nat}

/-- Some link has the word at an end. -/
def IsLinked (k : Linkage) (w : Nat) : Prop := ∃ l ∈ k.links, l.touches w = true

theorem joined_diagram_iff {p : Nat → Prop} : k.diagram.Joined p u v ↔ ∃ i l,
    k.links[i]? = some l ∧ p i ∧ ((l.left = u ∧ l.right = v) ∨ (l.left = v ∧ l.right = u)) := by
  constructor
  · rintro ⟨i, a, ha, hp, hjoins⟩
    obtain ⟨l, hl, rfl⟩ := getElem?_arcs_diagram.mp ha
    exact ⟨i, l, hl, hp, hjoins⟩
  · rintro ⟨i, l, hl, hp, hjoins⟩
    exact ⟨i, l.arc, getElem?_arcs_diagram.mpr ⟨l, hl, rfl⟩, hp, hjoins⟩

/-- A route over some of the links is a path of their arcs. -/
theorem exists_isRoute_iff {p : Nat → Prop} : (∃ is, k.IsRoute u is v ∧ ∀ i ∈ is, p i)
    ↔ Relation.ReflTransGen (k.diagram.Joined p) u v := by
  constructor
  · rintro ⟨is, hroute, hp⟩
    induction hroute with
    | nil w => exact Relation.ReflTransGen.refl
    | cons hl hjoins _ ih =>
        rw [List.forall_mem_cons] at hp
        exact (ih hp.2).head (joined_diagram_iff.mpr ⟨_, _, hl, hp.1, hjoins⟩)
  · intro hpath
    induction hpath using Relation.ReflTransGen.head_induction_on with
    | refl => exact ⟨[], .nil v, fun i hi => absurd hi List.not_mem_nil⟩
    | head hstep _ ih =>
        obtain ⟨i, l, hl, hpi, hjoins⟩ := joined_diagram_iff.mp hstep
        obtain ⟨is, hroute, hp⟩ := ih
        exact ⟨i :: is, .cons hl hjoins hroute, List.forall_mem_cons.mpr ⟨hpi, hp⟩⟩

theorem connected_diagram_iff :
    Diagram.Connected k.diagram.arcs u v ↔ ∃ is, k.IsRoute u is v := by
  unfold Diagram.Connected
  rw [Diagram.adjacent_eq_joined, ← exists_isRoute_iff]
  simp

theorem isLinked_diagram_iff : Diagram.IsLinked k.diagram.arcs w ↔ k.IsLinked w := by
  constructor
  · rintro ⟨a, ha, hends⟩
    obtain ⟨l, hl, rfl⟩ := List.mem_map.mp ha
    exact ⟨l, hl, Link.touches_iff.mpr hends⟩
  · rintro ⟨l, hl, htouches⟩
    exact ⟨l.arc, List.mem_map_of_mem hl, Link.touches_iff.mp htouches⟩

theorem mem_nullWords_iff (hw : w < k.words) : w ∈ k.nullWords ↔ ¬k.IsLinked w := by
  unfold nullWords IsLinked
  simp [hw]

/-- The canonical order of links is that of their arcs. -/
theorem canonical_diagram (k : Linkage) :
    k.diagram.canonical = k.canonical.map fun p => (p.1.arc, p.2) := by
  unfold Diagram.canonical canonical
  rw [show k.diagram.arcs = k.links.map Link.arc from rfl, List.zipIdx_map]
  exact Sorting.sort_map (Prod.map Link.arc id) _

/-! ## Components by their numbers -/

/-- What the component numbers in a table say about the links. -/
structure IsNumbered (k : Linkage) (t : DomainTable) : Prop where
  /-- Null words, and they alone, have no component. -/
  eq_none_iff : ∀ w < k.words, t.componentOf? w = none ↔ w ∈ k.nullWords
  eq_iff : ∀ u v, k.IsLinked u → k.IsLinked v →
    (t.componentOf? u = t.componentOf? v ↔ ∃ is, k.IsRoute u is v)
  /-- The numbers in use are those below a count. -/
  exists_iff : ∀ n, (∃ w, t.componentOf? w = some n) ↔ n < t.groups.length
  /-- They ascend with the smallest words of the components. -/
  ascending : ∀ m n u v, IsLeast {w | t.componentOf? w = some m} u →
    IsLeast {w | t.componentOf? w = some n} v → m < n → u < v
  /-- The first link in canonical order has number zero, with which the check
  that all links are connected compares. -/
  first : ∀ l i, k.canonical.head? = some (l, i) →
    t.componentOf? l.left = some 0 ∧ t.firstComponent? = some 0
  connected : ∀ i l, k.links[i]? = some l →
    (t.objection? .connected l.arc i = none ↔ t.componentOf? l.left = some 0)
  /-- The searches that share one row find the same numbers. -/
  components_eq : t.components = (List.range k.words).map t.componentOf?

theorem isNumbered_ofDiagram (k : Linkage) (rules : RuleSet) :
    k.IsNumbered (DomainTable.ofDiagram rules k.diagram) where
  eq_none_iff w hw := by
    rw [DomainTable.componentOf?_eq_none_iff, isLinked_diagram_iff, mem_nullWords_iff hw]
  eq_iff u v hu _ := by
    rw [DomainTable.componentOf?_eq_iff (isLinked_diagram_iff.mpr hu), connected_diagram_iff]
  exists_iff _ := DomainTable.exists_componentOf?_eq_some_iff
  ascending _ _ _ _ := DomainTable.lt_of_isLeast_componentOf?
  first l i hfirst := by
    have hhead : k.diagram.canonical.head? = some (l.arc, i) := by
      rw [canonical_diagram, List.head?_map, hfirst]
      rfl
    exact ⟨DomainTable.componentOf?_eq_zero (Diagram.isLeast_of_head?_canonical hhead),
      DomainTable.firstComponent?_eq hhead⟩
  connected i l hl := by
    have harc : k.diagram.arcs[i]? = some l.arc := getElem?_arcs_diagram.mpr ⟨l, hl, rfl⟩
    obtain ⟨p, hp⟩ : ∃ p, k.diagram.canonical.head? = some p := by
      rw [← Option.isSome_iff_exists, List.isSome_head?]
      exact List.ne_nil_of_mem (Diagram.mem_canonical.mpr harc)
    simp only [DomainTable.objection?]
    rw [DomainTable.firstComponent?_eq hp]
    simp [Link.arc]
  components_eq := DomainTable.components_eq

/-- In the domain table of a labeled linkage the components are numbered in the
order of their smallest words. -/
theorem domainTable_components (h : k.isLabeled = true) (rules : RuleSet) :
    ∃ t, k.domainTable rules = .ok t ∧ k.IsNumbered t :=
  ⟨_, domainTable_of_isLabeled h rules, isNumbered_ofDiagram k rules⟩

/-- Word four is a null word, and the links one and two lead from the first
linked word to word six. -/
theorem domainTable_components_scattered : Sample.scattered.isLabeled = true ∧
    ∃ t, Sample.scattered.domainTable Sample.clauseChecks = .ok t ∧ t.componentOf? 4 = none ∧
      t.componentOf? 1 = some 0 ∧ t.componentOf? 6 = some 0 ∧ t.firstComponent? = some 0 := by
  have h : Sample.scattered.isLabeled = true := by decide +kernel
  obtain ⟨t, ht, hnumbered⟩ := domainTable_components h Sample.clauseChecks
  have hnull : t.componentOf? 4 = none :=
    (hnumbered.eq_none_iff 4 (by decide +kernel)).mpr (by decide +kernel)
  obtain ⟨l, hhead, hl, hleft, hright⟩ : ∃ l, Sample.scattered.canonical.head? = some (l, 1) ∧
      Sample.scattered.links[1]? = some l ∧ l.left = 1 ∧ l.right = 3 :=
    ⟨Sample.scattered.links.get ⟨1, by decide +kernel⟩, by decide +kernel⟩
  obtain ⟨m, hm, hmleft, hmright⟩ :
      ∃ m, Sample.scattered.links[2]? = some m ∧ m.left = 3 ∧ m.right = 6 :=
    ⟨Sample.scattered.links.get ⟨2, by decide +kernel⟩, by decide +kernel⟩
  obtain ⟨hfirst, hcomponent⟩ := hnumbered.first l 1 hhead
  rw [hleft] at hfirst
  have hroute : Sample.scattered.IsRoute 1 [1, 2] 6 :=
    .cons hl (.inl ⟨hleft, hright⟩) (.cons hm (.inl ⟨hmleft, hmright⟩) (.nil 6))
  have hjoined : t.componentOf? 1 = t.componentOf? 6 :=
    (hnumbered.eq_iff 1 6 ⟨l, List.mem_of_getElem? hl, Link.touches_iff.mpr (.inl hleft)⟩
      ⟨m, List.mem_of_getElem? hm, Link.touches_iff.mpr (.inr hmright)⟩).mpr ⟨_, hroute⟩
  exact ⟨h, t, ht, hnull, hfirst, hjoined.symm.trans hfirst, hcomponent⟩

end Linkage

end LinkParse
