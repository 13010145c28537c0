import LinkParse.Proofs.Components

/-!
# More links

A link that is written behind the others takes nothing away: the paths that
there were are there still. So every domain grows into one that the same link
opens, components only merge, and a link that is on a cycle stays on one
(`domainTable_append`).

Numbers do not stay. The new link takes its place in the canonical order, and
the domains behind the one that it opens get other numbers. A domain is
therefore followed by the link that opens it.
-/

namespace LinkParse

/-! ## Sentences to try -/

namespace Sample

/-- Two clauses, and a third one that opens between them and hangs on the
first one's end. -/
def threeClauses : Sentence := ⟨6, [(0, 3, "Ca"), (2, 4, "Cb"), (1, 3, "Cc")], 0⟩

def grown : Linkage := threeClauses.labeled?.get (by decide +kernel)

def ungrown : Linkage :=
  Sentence.labeled? { threeClauses with links := threeClauses.links.take 2 }
    |>.get (by decide +kernel)

end Sample

/-! ## Diagrams with more arcs -/

/-- Every arc of the diagram is one of the other, under the same number. -/
def Diagram.GrowsInto (d e : Diagram) : Prop :=
  ∀ (i : Nat) (a : Arc), d.arcs[i]? = some a → e.arcs[i]? = some a

/-- The other domain is opened by the same link and of the same kind. It has
every member, and its end is not smaller. -/
structure Domain.GrowsInto (x y : Domain) : Prop where
  kind_eq : y.kind = x.kind
  starter_eq : y.starter = x.starter
  start_eq : y.start = x.start
  members_subset : x.members ⊆ y.members
  last_le : x.last ≤ y.last

namespace Diagram

variable {d e : Diagram} {u v w i : Nat} {p : Nat → Prop}

theorem GrowsInto.joined (h : d.GrowsInto e) (hjoined : d.Joined p u v) : e.Joined p u v := by
  obtain ⟨i, a, ha, hp, hends⟩ := hjoined
  exact ⟨i, a, h i a ha, hp, hends⟩

theorem GrowsInto.adjacent (h : d.GrowsInto e) (hadjacent : Adjacent d.arcs u v) :
    Adjacent e.arcs u v := by
  rw [adjacent_eq_joined] at hadjacent ⊢
  exact h.joined hadjacent

theorem GrowsInto.isLinked (h : d.GrowsInto e) (hw : IsLinked d.arcs w) : IsLinked e.arcs w := by
  obtain ⟨a, ha, hends⟩ := hw
  obtain ⟨i, hi⟩ := List.mem_iff_getElem?.mp ha
  exact ⟨a, List.mem_of_getElem? (h i a hi), hends⟩

theorem GrowsInto.connected (h : d.GrowsInto e) (hpath : Connected d.arcs u v) :
    Connected e.arcs u v :=
  Relation.ReflTransGen.mono (fun _ _ => h.adjacent) u v hpath

/-- A path round an arc stays one, since the arc has the same number. -/
theorem GrowsInto.connected_eraseIdx (h : d.GrowsInto e)
    (hpath : Connected (d.arcs.eraseIdx i) u v) : Connected (e.arcs.eraseIdx i) u v := by
  unfold Connected at hpath ⊢
  rw [adjacent_eraseIdx_eq_joined] at hpath ⊢
  exact Relation.ReflTransGen.mono (fun _ _ => h.joined) u v hpath

theorem GrowsInto.reaches (h : d.GrowsInto e) {opening : Arc} : ∀ {reach : Reach},
    Domain.Reaches d.arcs reach opening w → Domain.Reaches e.arcs reach opening w
  | .rightWordOnly, hw => hw
  | .full, hw => by
      unfold Domain.Reaches at hw ⊢
      exact Relation.ReflTransGen.mono (fun _ _ => And.imp_right h.adjacent) opening.right w hw

theorem GrowsInto.isOpenedBy (h : d.GrowsInto e) {s : Starter} {opening : Arc} {x y : Domain}
    (hx : x.IsOpenedBy d s opening i) (hy : y.IsOpenedBy e s opening i) : x.GrowsInto y where
  kind_eq := hy.kind_eq.trans hx.kind_eq.symm
  starter_eq := hy.starter_eq.trans hx.starter_eq.symm
  start_eq := hy.start_eq.trans hx.start_eq.symm
  members_subset j hj := by
    obtain ⟨a, ha, hends⟩ := (hx.mem_members j).mp hj
    exact (hy.mem_members j).mpr
      ⟨a, h j a ha, hends.imp_right (Or.imp h.reaches h.reaches)⟩
  last_le := hy.last_greatest.2 (h.reaches hx.last_greatest.1)

/-- Every domain grows into one of the diagram with more arcs. -/
theorem GrowsInto.hasDomain (h : d.GrowsInto e) {starters : List Starter} {x : Domain}
    (hx : d.HasDomain starters x) : ∃ y, e.HasDomain starters y ∧ x.GrowsInto y := by
  obtain ⟨i, opening, s, hi, hs, hopened⟩ := hx
  have hopened' := Domain.isOpenedBy_openedBy (h i opening hi) s
  exact ⟨_, ⟨i, opening, s, h i opening hi, hs, hopened'⟩, h.isOpenedBy hopened hopened'⟩

end Diagram

/-! ## Tables -/

/-- What the table of a linkage says is kept, or exceeded, in another table. -/
structure DomainTable.GrowsInto (t t' : DomainTable) : Prop where
  domains : ∀ x ∈ t.domains, ∃ n y, t'.startedBy? x.starter = some n ∧ t'.domains[n]? = some y ∧
    x.GrowsInto y
  components : ∀ u v, (∃ n, t.componentOf? u = some n ∧ t.componentOf? v = some n) →
    ∃ n, t'.componentOf? u = some n ∧ t'.componentOf? v = some n
  cycles : ∀ i, t.onCycle i = true → t'.onCycle i = true

theorem DomainTable.growsInto_ofDiagram {d e : Diagram} (h : d.GrowsInto e) (rules : RuleSet) :
    (ofDiagram rules d).GrowsInto (ofDiagram rules e) where
  domains x hx := by
    obtain ⟨y, hy, hgrows⟩ := h.hasDomain (mem_domains.mp hx)
    obtain ⟨n, hn⟩ := List.mem_iff_getElem?.mp (mem_domains.mpr hy)
    exact ⟨n, y, startedBy?_eq_some_iff.mpr ⟨y, hn, hgrows.starter_eq⟩, hn, hgrows⟩
  components u v hone := by
    rw [exists_componentOf?_iff] at hone ⊢
    exact ⟨h.isLinked hone.1, h.connected hone.2⟩
  cycles i hi := by
    cases ha : d.arcs[i]? with
    | none =>
        unfold onCycle at hi
        rw [show (ofDiagram rules d).diagram.arcs[i]? = none from ha] at hi
        cases hi
    | some a =>
        rw [onCycle_iff ha] at hi
        rw [onCycle_iff (h i a ha)]
        exact h.connected_eraseIdx hi

/-! ## Linkages -/

namespace Linkage

variable {k m : Linkage} {words : Nat} {links : List Link} {cost : Binary64} {e : Link}

theorem growsInto_diagram_append (hm : m.links = k.links ++ [e]) :
    k.diagram.GrowsInto m.diagram := by
  intro i a ha
  obtain ⟨l, hl, rfl⟩ := getElem?_arcs_diagram.mp ha
  refine getElem?_arcs_diagram.mpr ⟨l, ?_, rfl⟩
  rw [hm, List.getElem?_append_left (List.getElem?_eq_some_iff.mp hl).1, hl]

theorem isLabeled_append (h : k.isLabeled = true) (he : e.label.isSome = true)
    (hm : m.links = k.links ++ [e]) : m.isLabeled = true := by
  unfold isLabeled at h ⊢
  rw [hm, List.all_append, h, List.all_cons, he]
  rfl

/-- The domain table of a labeled linkage only grows with a link more. -/
theorem domainTable_append (h : k.isLabeled = true) (he : e.label.isSome = true)
    (hm : make words (k.links ++ [e]) cost = .ok m) (rules : RuleSet) :
    ∃ t t', k.domainTable rules = .ok t ∧ m.domainTable rules = .ok t' ∧ t.GrowsInto t' := by
  have hlinks := links_of_make hm
  exact ⟨_, _, domainTable_of_isLabeled h rules,
    domainTable_of_isLabeled (isLabeled_append h he hlinks) rules,
    DomainTable.growsInto_ofDiagram (growsInto_diagram_append hlinks) rules⟩

/-- The third clause is a member of the first one, and takes the number of the
second one. -/
theorem domainTable_append_grown : Sample.ungrown.isLabeled = true ∧ ∃ e : Link,
    e.label.isSome = true ∧
    make 6 (Sample.ungrown.links ++ [e]) .zero = .ok Sample.grown ∧
    ∃ t t', Sample.ungrown.domainTable Sample.clauseChecks = .ok t ∧
      Sample.grown.domainTable Sample.clauseChecks = .ok t' ∧ t.GrowsInto t' ∧
      t.domains = [⟨"clause", 0, 0, 3, [0]⟩, ⟨"clause", 1, 2, 4, [1]⟩] ∧
      t'.domains = [⟨"clause", 0, 0, 3, [0, 2]⟩, ⟨"clause", 2, 1, 3, [0, 2]⟩,
        ⟨"clause", 1, 2, 4, [1]⟩] := by
  have h : Sample.ungrown.isLabeled = true := by decide +kernel
  obtain ⟨e, he, hmake⟩ : ∃ e : Link, e.label.isSome = true ∧
      make 6 (Sample.ungrown.links ++ [e]) .zero = .ok Sample.grown :=
    ⟨Sample.grown.links.get ⟨2, by decide +kernel⟩, by decide +kernel, by decide +kernel⟩
  obtain ⟨t, t', ht, ht', hgrows⟩ := domainTable_append h he hmake Sample.clauseChecks
  have hbefore : (Sample.ungrown.domainTable Sample.clauseChecks).map DomainTable.domains
      = .ok [⟨"clause", 0, 0, 3, [0]⟩, ⟨"clause", 1, 2, 4, [1]⟩] := by decide +kernel
  have hafter : (Sample.grown.domainTable Sample.clauseChecks).map DomainTable.domains
      = .ok [⟨"clause", 0, 0, 3, [0, 2]⟩, ⟨"clause", 2, 1, 3, [0, 2]⟩,
        ⟨"clause", 1, 2, 4, [1]⟩] := by decide +kernel
  exact ⟨h, e, he, hmake, t, t', ht, ht', hgrows, eq_of_map_domainTable ht hbefore,
    eq_of_map_domainTable ht' hafter⟩

end Linkage

end LinkParse
