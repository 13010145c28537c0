import LinkParse.Proofs.Tables
import Mathlib.Data.List.Chain

/-!
# The words that a domain reaches

Domains are found by a search that keeps right of a root. Here they are said
by the links themselves: a path is a list of words of which each is joined
with the next by a link (`Linkage.IsPath`), and what a link reaches is where
the paths from its right word end that stay right of its left word
(`Linkage.reach`).

In the domain table of a labeled linkage every link whose label has a starter
opens the domain of the words that it reaches (`domainTable_reaches`). Links
that lead back to the root or left of it are members of the domain, but the
search does not follow them.
-/

namespace LinkParse

/-- Paths of a relation that keep to some words, as lists of words. -/
theorem reflTransGen_and_iff_exists_isChain {r : Nat → Nat → Prop} {p : Nat → Prop} {a b : Nat}
    (ha : p a) : Relation.ReflTransGen (fun u v => p v ∧ r u v) a b ↔
      ∃ ws, (a :: ws).IsChain r ∧ (∀ w ∈ a :: ws, p w) ∧
        (a :: ws).getLast (List.cons_ne_nil a ws) = b := by
  constructor
  · intro h
    obtain ⟨ws, hchain, hlast⟩ := List.exists_isChain_cons_of_relationReflTransGen h
    have hkeep : ∀ w ∈ a :: ws, p w :=
      hchain.induction p _ (fun _ _ hstep _ => hstep.1) fun _ => ha
    exact ⟨ws, hchain.imp fun _ _ hstep => hstep.2, hkeep, hlast⟩
  · rintro ⟨ws, hchain, hkeep, hlast⟩
    have hsteps : (a :: ws).IsChain fun u v => p v ∧ r u v :=
      hchain.imp_of_mem_imp fun _ v _ hv hstep => ⟨hkeep v hv, hstep⟩
    exact List.relationReflTransGen_of_exists_isChain_cons ws hsteps hlast

/-! ## Paths of links -/

namespace Linkage

/-- Some link joins the two words. -/
def IsJoined (k : Linkage) (u v : Nat) : Prop :=
  ∃ l ∈ k.links, (l.left = u ∧ l.right = v) ∨ (l.left = v ∧ l.right = u)

/-- A path of links, by the words that it passes. -/
def IsPath (k : Linkage) (ws : List Nat) : Prop := ws.IsChain k.IsJoined

/-- The words that a link reaches right of its left word. -/
def reach (k : Linkage) (l : Link) : Reach → Set Nat
  | .rightWordOnly => {l.right}
  | .full => {w | ∃ ws, k.IsPath (l.right :: ws) ∧ (∀ u ∈ l.right :: ws, l.left < u) ∧
      (l.right :: ws).getLast (List.cons_ne_nil _ ws) = w}

/-- The starter decides about the label of the link with an index. -/
def OpensBy (k : Linkage) (rules : RuleSet) (i : Nat) (l : Link) (s : Starter) : Prop :=
  k.links[i]? = some l ∧ ∃ a, l.label = some a ∧ rules.starterFor? a.text = some s

/-- What the domain is that the link with an index opens by a starter. -/
structure IsDomainOf (k : Linkage) (i : Nat) (l : Link) (s : Starter) (x : Domain) : Prop where
  kind_eq : x.kind = s.domain
  starter_eq : x.starter = i
  start_eq : x.start = l.left
  last_greatest : IsGreatest (k.reach l s.reach) x.last
  ascending : x.members.Pairwise (· < ·)
  /-- The members are the opening link and the links with an end that it
  reaches. -/
  mem_members_iff : ∀ j, j ∈ x.members ↔
    j = i ∨ ∃ m, k.links[j]? = some m ∧
      (m.left ∈ k.reach l s.reach ∨ m.right ∈ k.reach l s.reach)
  /-- The search finds the words that the link reaches. -/
  mem_reachedWords_iff : ∀ w,
    w ∈ Domain.reachedWords k.diagram s.reach l.arc ↔ w ∈ k.reach l s.reach
  /-- It finds neither the root nor a word left of it. -/
  start_lt : ∀ w ∈ Domain.reachedWords k.diagram s.reach l.arc, x.start < w

variable {k : Linkage} {rules : RuleSet} {i : Nat} {l : Link} {s : Starter} {x : Domain}

theorem adjacent_diagram_iff {u v : Nat} :
    Diagram.Adjacent k.diagram.arcs u v ↔ k.IsJoined u v := by
  constructor
  · rintro ⟨a, ha, hjoins⟩
    obtain ⟨l, hl, rfl⟩ := List.mem_map.mp ha
    exact ⟨l, hl, hjoins⟩
  · rintro ⟨l, hl, hjoins⟩
    exact ⟨l.arc, List.mem_map_of_mem hl, hjoins⟩

theorem mem_reach_iff : ∀ {r : Reach} {w : Nat},
    w ∈ k.reach l r ↔ Domain.Reaches k.diagram.arcs r l.arc w
  | .rightWordOnly, _ => Iff.rfl
  | .full, w => by
      have hrel : (fun u v => l.left < v ∧ Diagram.Adjacent k.diagram.arcs u v)
          = fun u v => l.left < v ∧ k.IsJoined u v :=
        funext fun u => funext fun v => propext (and_congr_right fun _ => adjacent_diagram_iff)
      show _ ↔ Relation.ReflTransGen
        (fun u v => l.left < v ∧ Diagram.Adjacent k.diagram.arcs u v) l.right w
      rw [hrel, reflTransGen_and_iff_exists_isChain l.left_lt_right]
      rfl

theorem lt_of_mem_reach {r : Reach} {w : Nat} (hw : w ∈ k.reach l r) : l.left < w :=
  (mem_reach_iff.mp hw).lt

/-- The search from a link finds what the link reaches. -/
theorem mem_reachedWords_iff (hl : k.links[i]? = some l) {r : Reach} {w : Nat} :
    w ∈ Domain.reachedWords k.diagram r l.arc ↔ w ∈ k.reach l r :=
  have harc : l.arc ∈ k.diagram.arcs := List.mem_map_of_mem (List.mem_of_getElem? hl)
  (Domain.mem_reachedWords harc).trans mem_reach_iff.symm

/-! ## The domain of a link -/

theorem OpensBy.starterFor?_arc (h : k.OpensBy rules i l s) :
    rules.starterFor? l.arc.label = some s := by
  obtain ⟨-, a, ha, hs⟩ := h
  rwa [label_arc ha]

/-- A starter that is found for the label of a link opens by it. -/
theorem exists_opensBy (k : Linkage) (rules : RuleSet) (i : Nat) (s : Starter)
    (h : (k.links[i]?.bind fun l => l.label.bind fun a => rules.starterFor? a.text) = some s) :
    ∃ l, k.OpensBy rules i l s := by
  obtain ⟨l, hl, hlabel⟩ := Option.bind_eq_some_iff.mp h
  obtain ⟨a, ha, hs⟩ := Option.bind_eq_some_iff.mp hlabel
  exact ⟨l, hl, a, ha, hs⟩

theorem IsDomainOf.of_isOpenedBy (hl : k.links[i]? = some l)
    (h : x.IsOpenedBy k.diagram s l.arc i) : k.IsDomainOf i l s x where
  kind_eq := h.kind_eq
  starter_eq := h.starter_eq
  start_eq := h.start_eq
  last_greatest :=
    ⟨mem_reach_iff.mpr h.last_greatest.1, fun _ hw => h.last_greatest.2 (mem_reach_iff.mp hw)⟩
  ascending := h.ascending
  mem_members_iff j := by
    rw [h.mem_members]
    constructor
    · rintro ⟨a, ha, hj⟩
      obtain ⟨m, hm, rfl⟩ := getElem?_arcs_diagram.mp ha
      exact hj.imp_right fun hends =>
        ⟨m, hm, hends.imp mem_reach_iff.mpr mem_reach_iff.mpr⟩
    · rintro (rfl | ⟨m, hm, hends⟩)
      · exact ⟨l.arc, getElem?_arcs_diagram.mpr ⟨l, hl, rfl⟩, .inl rfl⟩
      · exact ⟨m.arc, getElem?_arcs_diagram.mpr ⟨m, hm, rfl⟩,
          .inr (hends.imp mem_reach_iff.mp mem_reach_iff.mp)⟩
  mem_reachedWords_iff _ := Linkage.mem_reachedWords_iff hl
  start_lt _ hw := by
    rw [h.start_eq]
    exact lt_of_mem_reach ((Linkage.mem_reachedWords_iff hl).mp hw)

/-- A domain of the table is the one that its opening link opens. -/
theorem OpensBy.isDomainOf (h : k.OpensBy rules x.starter l s)
    (hx : k.diagram.HasDomain rules.starters x) : k.IsDomainOf x.starter l s x := by
  obtain ⟨i, opening, s', hi, hs', hopened⟩ := hx
  obtain ⟨m, hm, rfl⟩ := getElem?_arcs_diagram.mp hi
  rw [hopened.starter_eq] at h ⊢
  obtain rfl := Option.some.inj (h.1.symm.trans hm)
  obtain rfl := Option.some.inj (h.starterFor?_arc.symm.trans hs')
  exact .of_isOpenedBy hm hopened

/-- In the domain table of a labeled linkage every link whose label has a
starter opens the domain of the words that it reaches. -/
theorem domainTable_reaches (h : k.isLabeled = true) (rules : RuleSet) :
    ∃ t, k.domainTable rules = .ok t ∧ ∀ i l s, k.OpensBy rules i l s →
      ∃ n x, t.startedBy? i = some n ∧ t.domains[n]? = some x ∧ k.IsDomainOf i l s x := by
  refine ⟨_, domainTable_of_isLabeled h rules, fun i l s hopens => ?_⟩
  have harc : k.diagram.arcs[i]? = some l.arc := getElem?_arcs_diagram.mpr ⟨l, hopens.1, rfl⟩
  have hopened := Domain.isOpenedBy_openedBy harc s
  have hmem : Domain.openedBy k.diagram s l.arc i ∈
      (DomainTable.ofDiagram rules k.diagram).domains :=
    DomainTable.mem_domains.mpr ⟨i, l.arc, s, harc, hopens.starterFor?_arc, hopened⟩
  obtain ⟨n, hn⟩ := List.mem_iff_getElem?.mp hmem
  exact ⟨n, _, DomainTable.startedBy?_eq_some_iff.mpr ⟨_, hn, rfl⟩, hn,
    .of_isOpenedBy hopens.1 hopened⟩

end Linkage

/-! ## Links that lead back -/

namespace Sample

/-- The clause of the second link reaches words that links join with its root
and with a word left of it. The last link is behind that word. -/
def leadingBack : Linkage :=
  Sentence.labeled? ⟨5, [(0, 3, "Xp"), (1, 3, "Ca"), (1, 4, "Xd"), (3, 4, "Ss"), (0, 2, "Ds")], 0⟩
    |>.get (by decide +kernel)

end Sample

/-- The links that lead back are members, and what is behind them is not. -/
theorem Linkage.domainTable_reaches_leadingBack : Sample.leadingBack.isLabeled = true ∧
    ∃ t l s x, Sample.leadingBack.domainTable Sample.clauseChecks = .ok t ∧
      Sample.leadingBack.OpensBy Sample.clauseChecks 1 l s ∧ t.domains[0]? = some x ∧
      Sample.leadingBack.IsDomainOf 1 l s x ∧ s.reach = .full ∧ x.start = 1 ∧ x.last = 4 ∧
      x.members = [0, 1, 2, 3] := by
  have hlabeled : Sample.leadingBack.isLabeled = true := by decide +kernel
  obtain ⟨t, ht, hreaches⟩ := Linkage.domainTable_reaches hlabeled Sample.clauseChecks
  obtain ⟨l, hopens⟩ := Linkage.exists_opensBy Sample.leadingBack Sample.clauseChecks 1
    { pattern := Sample.clausePattern, domain := "clause" } (by decide +kernel)
  obtain ⟨n, x, hn, hx, hdomain⟩ := hreaches 1 l _ hopens
  have hfirst : (Sample.leadingBack.domainTable Sample.clauseChecks).map (fun t =>
      (t.startedBy? 1, t.domains[0]?.map fun x => (x.start, x.last, x.members)))
      = .ok (some 0, some (1, 4, [0, 1, 2, 3])) := by decide +kernel
  rw [ht] at hfirst
  obtain ⟨hzero, hvalues⟩ := Prod.mk.inj (Except.ok.inj hfirst)
  obtain rfl := Option.some.inj (hn.symm.trans hzero)
  rw [hx] at hvalues
  obtain ⟨hstart, hrest⟩ := Prod.mk.inj (Option.some.inj hvalues)
  obtain ⟨hlast, hmembers⟩ := Prod.mk.inj hrest
  exact ⟨hlabeled, t, l, _, x, ht, hopens, hx, hdomain, rfl, hstart, hlast, hmembers⟩

end LinkParse
