import LinkParse.Proofs.Components

/-!
# Cycles

A link is on a cycle if its words are joined without it. The links count by
their numbers: a link that is written twice is on a cycle, since the route may
take the other one.

The search that ends as soon as it comes to the right word answers as the full
one does (`DomainTable.hasDetour_eq`), and both say whether a route leads
round the link. That is the same as the link's words being in one component of
the linkage that is left when the link is taken out (`domainTable_cycles`).
-/

namespace LinkParse

/-! ## A sentence to try -/

namespace Sample

/-- A link that is written twice, and one behind it that is on no cycle. -/
def doubled : Linkage :=
  Sentence.labeled? ⟨3, [(0, 1, "Ss"), (1, 2, "Os"), (0, 1, "Ss")], 0⟩ |>.get (by decide +kernel)

end Sample

/-! ## Detours -/

/-- A path between different words leaves the first one by an arc. -/
theorem Diagram.Connected.isLinked {arcs : List Arc} {u v : Nat} (h : Connected arcs u v)
    (hne : u ≠ v) : IsLinked arcs u := by
  rcases h.cases_head with heq | ⟨w, hstep, -⟩
  · exact absurd heq hne
  · exact hstep.symm.isLinked_right

namespace DomainTable

variable {rules : RuleSet} {d : Diagram} {a : Arc} {i : Nat}

theorem hasDetour_iff (ha : d.arcs[i]? = some a) : (ofDiagram rules d).hasDetour i = true
    ↔ Diagram.Connected (d.arcs.eraseIdx i) a.left a.right := by
  have hleft := Diagram.left_lt_words (List.mem_of_getElem? ha)
  have hnext := Diagram.lt_of_mem_neighboursBy (d.right_lt_words_eraseIdx i)
  unfold hasDetour
  rw [show (ofDiagram rules d).diagram.arcs[i]? = some a from ha]
  rw [← Diagram.leads_neighboursBy]
  exact Search.comesTo_iff (fun w hw => hw.lt_words hnext hleft) a.left_lt_right.ne'

/-- The search that ends early answers as the full one, also for a number that
is no link's. -/
theorem hasDetour_eq (rules : RuleSet) (d : Diagram) (i : Nat) :
    (ofDiagram rules d).hasDetour i = (ofDiagram rules d).onCycle i := by
  cases ha : d.arcs[i]? with
  | none =>
      unfold hasDetour onCycle
      rw [show (ofDiagram rules d).diagram.arcs[i]? = none from ha]
  | some a => rw [Bool.eq_iff_iff, hasDetour_iff ha, onCycle_iff ha]

end DomainTable

namespace Linkage

variable {k : Linkage} {i : Nat} {l : Link}

/-! ## Taking a link out -/

/-- The linkage without the link with a number. The links behind it move up. -/
def without (k : Linkage) (i : Nat) : Linkage where
  words := k.words
  links := k.links.eraseIdx i
  cost := k.cost
  cost_finite := k.cost_finite
  right_lt_words l hl := k.right_lt_words l (List.mem_of_mem_eraseIdx hl)
  connectors_agree l hl m hm :=
    k.connectors_agree l (List.mem_of_mem_eraseIdx hl) m (List.mem_of_mem_eraseIdx hm)

theorem isLabeled_without (h : k.isLabeled = true) : (k.without i).isLabeled = true := by
  unfold isLabeled at h ⊢
  rw [List.all_eq_true] at h ⊢
  exact fun l hl => h l (List.mem_of_mem_eraseIdx hl)

theorem arcs_without (k : Linkage) (i : Nat) :
    (k.without i).diagram.arcs = k.diagram.arcs.eraseIdx i :=
  (List.eraseIdx_map Link.arc k.links i).symm

/-! ## Cycles by routes -/

/-- A route round a link keeps its number out. -/
theorem connected_eraseIdx_iff {u v : Nat} : Diagram.Connected (k.diagram.arcs.eraseIdx i) u v
    ↔ ∃ is, k.IsRoute u is v ∧ i ∉ is := by
  unfold Diagram.Connected
  rw [Diagram.adjacent_eraseIdx_eq_joined, ← exists_isRoute_iff]
  simp only [List.forall_mem_ne']

/-- In the domain table of a labeled linkage a link is on a cycle exactly if a
route leads round it, and exactly if its words are in one component of the
linkage that is left without the link. -/
theorem domainTable_cycles (h : k.isLabeled = true) (rules : RuleSet) :
    ∃ t, k.domainTable rules = .ok t ∧ ∀ i l, k.links[i]? = some l →
      (t.onCycle i = true ↔ ∃ is, k.IsRoute l.left is l.right ∧ i ∉ is) ∧
      t.hasDetour i = t.onCycle i ∧
      ∃ rest t', make k.words (k.links.eraseIdx i) k.cost = .ok rest ∧
        rest.domainTable rules = .ok t' ∧ (t.onCycle i = true ↔
          ∃ n, t'.componentOf? l.left = some n ∧ t'.componentOf? l.right = some n) := by
  refine ⟨_, domainTable_of_isLabeled h rules, fun i l hl => ?_⟩
  have harc : k.diagram.arcs[i]? = some l.arc := getElem?_arcs_diagram.mpr ⟨l, hl, rfl⟩
  have hcycle : (DomainTable.ofDiagram rules k.diagram).onCycle i = true ↔
      Diagram.Connected (k.diagram.arcs.eraseIdx i) l.left l.right := DomainTable.onCycle_iff harc
  refine ⟨hcycle.trans connected_eraseIdx_iff, DomainTable.hasDetour_eq rules k.diagram i, ?_⟩
  refine ⟨k.without i, _, (k.without i).make_parts,
    domainTable_of_isLabeled (isLabeled_without h) rules, ?_⟩
  rw [DomainTable.exists_componentOf?_iff, arcs_without, hcycle]
  exact ⟨fun hpath => ⟨hpath.isLinked l.left_lt_right.ne, hpath⟩, And.right⟩

/-- The link that is written twice has the other one to go round by; the link
behind it has none. -/
theorem domainTable_cycles_doubled : Sample.doubled.isLabeled = true ∧
    ∃ t l m, Sample.doubled.domainTable Sample.clauseChecks = .ok t ∧
      Sample.doubled.links[0]? = some l ∧ Sample.doubled.links[1]? = some m ∧
      t.onCycle 0 = true ∧ t.onCycle 1 = false ∧
      ¬∃ is, Sample.doubled.IsRoute m.left is m.right ∧ 1 ∉ is := by
  have h : Sample.doubled.isLabeled = true := by decide +kernel
  obtain ⟨t, ht, hcycles⟩ := domainTable_cycles h Sample.clauseChecks
  obtain ⟨l, n, hl, hn, hends⟩ : ∃ l n, Sample.doubled.links[0]? = some l ∧
      Sample.doubled.links[2]? = some n ∧ n.left = l.left ∧ n.right = l.right :=
    ⟨Sample.doubled.links.get ⟨0, by decide +kernel⟩,
      Sample.doubled.links.get ⟨2, by decide +kernel⟩, by decide +kernel⟩
  obtain ⟨m, hm⟩ : ∃ m, Sample.doubled.links[1]? = some m :=
    ⟨Sample.doubled.links.get ⟨1, by decide +kernel⟩, by decide +kernel⟩
  have hfirst : t.onCycle 0 = true :=
    (hcycles 0 l hl).1.mpr ⟨[2], .cons hn (.inl hends) (.nil l.right), by decide⟩
  have hcomputed : (Sample.doubled.domainTable Sample.clauseChecks).map (·.onCycle 1)
      = .ok false := by decide +kernel
  have hsecond : t.onCycle 1 = false := eq_of_map_domainTable ht hcomputed
  refine ⟨h, t, l, m, ht, hl, hm, hfirst, hsecond, fun hroute => ?_⟩
  rw [(hcycles 1 m hm).1.mpr hroute] at hsecond
  cases hsecond

end Linkage

end LinkParse
