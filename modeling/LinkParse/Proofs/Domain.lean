import LinkParse.Domain
import LinkParse.Proofs.Diagram
import Mathlib.Data.List.Sort

/-!
# Domains by what they reach

`Domain.IsOpenedBy` says what the domain of an opening link is, by paths
instead of searches, and `Diagram.HasDomain` that a diagram has a domain.
Both leave nothing open: a link opens at most one domain
(`HasDomain.eq_of_starter_eq`), and the domain table holds exactly the
domains that the diagram has (`mem_domains`), in the order of their opening
links (`pairwise_domains`).
-/

namespace LinkParse

namespace Domain

/-- The words that a domain reaches from its opening arc: the arc's right
word and, with full reach, every word that a path right of the root
connects with it. -/
def Reaches (arcs : List Arc) : Reach → Arc → Nat → Prop
  | .rightWordOnly, opening, w => w = opening.right
  | .full, opening, w =>
    Relation.ReflTransGen (fun u v => opening.left < v ∧ Diagram.Adjacent arcs u v) opening.right w

/-- The domain that the link with an index opens by a starter: it spans the
words from the link's left word to the last word reached, and its members
are the link itself and every link that touches a word reached. -/
structure IsOpenedBy (d : Diagram) (s : Starter) (opening : Arc) (index : Nat) (x : Domain) :
    Prop where
  kind_eq : x.kind = s.domain
  starter_eq : x.starter = index
  start_eq : x.start = opening.left
  last_greatest : IsGreatest {w | Reaches d.arcs s.reach opening w} x.last
  ascending : x.members.Pairwise (· < ·)
  mem_members : ∀ i, i ∈ x.members ↔ ∃ a, d.arcs[i]? = some a ∧
    (i = index ∨ Reaches d.arcs s.reach opening a.left ∨ Reaches d.arcs s.reach opening a.right)

variable {d : Diagram} {s : Starter} {opening : Arc} {index : Nat} {x y : Domain}

/-! ## Words reached -/

theorem reaches_right {arcs : List Arc} :
    ∀ {reach : Reach}, Reaches arcs reach opening opening.right
  | .rightWordOnly => rfl
  | .full => Relation.ReflTransGen.refl

/-- No domain reaches its root or a word left of it. -/
theorem Reaches.lt {arcs : List Arc} {w : Nat} : ∀ {reach : Reach}, Reaches arcs reach opening w →
    opening.left < w
  | .rightWordOnly, h => by
      rw [show w = opening.right from h]
      exact opening.left_lt_right
  | .full, h => by
      cases h with
      | refl => exact opening.left_lt_right
      | tail _ hv => exact hv.1

theorem Reaches.isLinked {arcs : List Arc} (hopening : opening ∈ arcs) {w : Nat} :
    ∀ {reach : Reach}, Reaches arcs reach opening w → Diagram.IsLinked arcs w
  | .rightWordOnly, h => ⟨opening, hopening, Or.inr h.symm⟩
  | .full, h => by
      cases h with
      | refl => exact ⟨opening, hopening, Or.inr rfl⟩
      | tail _ hv => exact hv.2.isLinked_right

theorem mem_reachedWords (hopening : opening ∈ d.arcs) {reach : Reach} {w : Nat} :
    w ∈ reachedWords d reach opening ↔ Reaches d.arcs reach opening w := by
  cases reach with
  | rightWordOnly => exact List.mem_singleton
  | full =>
      have hnext : ∀ u v, v ∈ (d.neighbours u).filter (opening.left < ·)
          ↔ opening.left < v ∧ Diagram.Adjacent d.arcs u v := by
        intro u v
        rw [List.mem_filter, decide_eq_true_eq, and_comm]
        exact and_congr_right fun _ => Diagram.mem_neighboursBy
      have hrel : (fun u v => v ∈ (d.neighbours u).filter (opening.left < ·))
          = fun u v => opening.left < v ∧ Diagram.Adjacent d.arcs u v :=
        funext fun u => funext fun v => propext (hnext u v)
      have hwords : ∀ u, ∀ v ∈ (d.neighbours u).filter (opening.left < ·), v < d.words :=
        fun u v hv => Diagram.lt_of_mem_neighboursBy d.right_lt_words u v (List.mem_filter.mp hv).1
      show w ∈ Search.reached d.words _ opening.right ↔ Relation.ReflTransGen _ opening.right w
      rw [← hrel]
      exact Search.mem_reached fun v hv => hv.lt_words hwords (d.right_lt_words opening hopening)

/-! ## The domain that a link opens -/

/-- The members gathered from the words reached. -/
theorem mem_members_openedBy {i : Nat} (hopening : d.arcs[index]? = some opening) :
    i ∈ (openedBy d s opening index).members ↔ ∃ a, d.arcs[i]? = some a ∧
      (i = index ∨ Reaches d.arcs s.reach opening a.left
        ∨ Reaches d.arcs s.reach opening a.right) := by
  unfold openedBy
  simp only [Sorting.mem_dedup, Sorting.mem_sort, List.mem_append, List.mem_flatMap,
    List.mem_singleton, mem_reachedWords (List.mem_of_getElem? hopening), Diagram.mem_arcsAt]
  constructor
  · rintro (⟨w, hw, a, ha, rfl | rfl⟩ | rfl)
    · exact ⟨a, ha, .inr (.inl hw)⟩
    · exact ⟨a, ha, .inr (.inr hw)⟩
    · exact ⟨opening, hopening, .inl rfl⟩
  · rintro ⟨a, ha, rfl | hleft | hright⟩
    · exact .inr rfl
    · exact .inl ⟨a.left, hleft, a, ha, .inl rfl⟩
    · exact .inl ⟨a.right, hright, a, ha, .inr rfl⟩

/-- Sorting and dropping repetitions leaves members that ascend. -/
theorem pairwise_members_openedBy : (openedBy d s opening index).members.Pairwise (· < ·) := by
  refine Sorting.pairwise_dedup ((Sorting.pairwise_sort ?_ ?_ _).imp of_decide_eq_true)
  · intro a b c hab hbc
    exact decide_eq_true (Nat.le_trans (of_decide_eq_true hab) (of_decide_eq_true hbc))
  · intro a b
    exact (Nat.le_total a b).imp decide_eq_true decide_eq_true

theorem isOpenedBy_openedBy (hopening : d.arcs[index]? = some opening) (s : Starter) :
    (openedBy d s opening index).IsOpenedBy d s opening index where
  kind_eq := rfl
  starter_eq := rfl
  start_eq := rfl
  last_greatest := by
    have hmem := List.mem_of_getElem? hopening
    have hmax : (opening.right :: reachedWords d s.reach opening).max?
        = some (openedBy d s opening index).last := List.max?_cons'
    obtain ⟨hlast, hle⟩ := List.max?_eq_some_iff.mp hmax
    constructor
    · rcases List.mem_cons.mp hlast with hright | hlast
      · rw [hright]
        exact reaches_right
      · exact (mem_reachedWords hmem).mp hlast
    · intro w hw
      exact hle w (List.mem_cons_of_mem _ ((mem_reachedWords hmem).mpr hw))
  ascending := pairwise_members_openedBy
  mem_members _ := mem_members_openedBy hopening

/-- What a link opens by a starter is one domain. -/
theorem IsOpenedBy.unique (hx : x.IsOpenedBy d s opening index)
    (hy : y.IsOpenedBy d s opening index) : x = y := by
  have hlast := hx.last_greatest.unique hy.last_greatest
  have hmembers := hx.ascending.eq_of_mem_iff hy.ascending fun i =>
    (hx.mem_members i).trans (hy.mem_members i).symm
  obtain ⟨kx, ix, sx, lx, mx⟩ := x
  obtain ⟨ky, iy, sy, ly, my⟩ := y
  obtain rfl : kx = ky := hx.kind_eq.trans hy.kind_eq.symm
  obtain rfl : ix = iy := hx.starter_eq.trans hy.starter_eq.symm
  obtain rfl : sx = sy := hx.start_eq.trans hy.start_eq.symm
  obtain rfl : lx = ly := hlast
  obtain rfl : mx = my := hmembers
  rfl

end Domain

/-! ## The domains of a diagram -/

/-- The diagram has a domain: one of its links opens it by the first of the
starters that accepts the link's label. -/
def Diagram.HasDomain (d : Diagram) (starters : List Starter) (x : Domain) : Prop :=
  ∃ i opening s, d.arcs[i]? = some opening ∧
    starters.find? (·.pattern.accepts opening.label) = some s ∧ x.IsOpenedBy d s opening i

namespace Diagram

variable {d : Diagram} {starters : List Starter} {x y : Domain}

theorem HasDomain.eq_of_starter_eq (hx : d.HasDomain starters x) (hy : d.HasDomain starters y)
    (h : x.starter = y.starter) : x = y := by
  obtain ⟨i, a, s, ha, hs, hx⟩ := hx
  obtain ⟨j, b, t, hb, ht, hy⟩ := hy
  obtain rfl : i = j := by rw [← hx.starter_eq, ← hy.starter_eq, h]
  obtain rfl := Option.some.inj (ha.symm.trans hb)
  obtain rfl := Option.some.inj (hs.symm.trans ht)
  exact hx.unique hy

/-- A domain starts at the left word of its opening link. -/
theorem HasDomain.getElem?_starter (h : d.HasDomain starters x) :
    ∃ opening, d.arcs[x.starter]? = some opening ∧ x.start = opening.left := by
  obtain ⟨i, opening, s, hi, -, hx⟩ := h
  exact ⟨opening, by rw [hx.starter_eq, hi], hx.start_eq⟩

theorem HasDomain.isLinked_start (h : d.HasDomain starters x) : IsLinked d.arcs x.start := by
  obtain ⟨a, ha, hstart⟩ := h.getElem?_starter
  exact ⟨a, List.mem_of_getElem? ha, Or.inl hstart.symm⟩

theorem HasDomain.isLinked_last (h : d.HasDomain starters x) : IsLinked d.arcs x.last := by
  obtain ⟨i, a, s, ha, -, hx⟩ := h
  exact hx.last_greatest.1.isLinked (List.mem_of_getElem? ha)

theorem HasDomain.ascending (h : d.HasDomain starters x) : x.members.Pairwise (· < ·) := by
  obtain ⟨i, a, s, -, -, hx⟩ := h
  exact hx.ascending

/-- Members are links of the diagram. -/
theorem HasDomain.getElem?_of_mem (h : d.HasDomain starters x) {i : Nat} (hi : i ∈ x.members) :
    ∃ a, d.arcs[i]? = some a := by
  obtain ⟨j, opening, s, -, -, hx⟩ := h
  obtain ⟨a, ha, -⟩ := (hx.mem_members i).mp hi
  exact ⟨a, ha⟩

end Diagram

namespace DomainTable

variable {rules : RuleSet} {d : Diagram} {x : Domain}

/-- The table holds exactly the domains that the diagram has. -/
theorem mem_domains : x ∈ (ofDiagram rules d).domains ↔ d.HasDomain rules.starters x := by
  unfold ofDiagram
  rw [List.mem_filterMap]
  constructor
  · rintro ⟨⟨a, i⟩, hmem, hx⟩
    obtain ⟨s, hs, rfl⟩ := Option.map_eq_some_iff.mp hx
    have ha := Diagram.mem_canonical.mp hmem
    exact ⟨i, a, s, ha, hs, Domain.isOpenedBy_openedBy ha s⟩
  · rintro ⟨i, a, s, ha, hs, hx⟩
    have hopened := Domain.isOpenedBy_openedBy ha s
    refine ⟨(a, i), Diagram.mem_canonical.mpr ha, ?_⟩
    rw [hx.unique hopened]
    exact Option.map_eq_some_iff.mpr ⟨s, hs, rfl⟩

/-- Domains stand in the canonical order of their opening links. -/
theorem pairwise_domains (rules : RuleSet) (d : Diagram) : (ofDiagram rules d).domains.Pairwise
    fun x y => toLex (x.start, x.starter) < toLex (y.start, y.starter) := by
  unfold ofDiagram
  rw [List.pairwise_filterMap]
  refine d.pairwise_canonical.imp fun {p q} hlt x hx y hy => ?_
  obtain ⟨s, -, rfl⟩ := Option.map_eq_some_iff.mp hx
  obtain ⟨t, -, rfl⟩ := Option.map_eq_some_iff.mp hy
  exact hlt

theorem mem_domainsAround {i : Nat} : x ∈ (ofDiagram rules d).domainsAround i
    ↔ d.HasDomain rules.starters x ∧ i ∈ x.members := by
  unfold domainsAround
  rw [List.mem_filter, mem_domains, List.contains_iff_mem]

/-- A link opens the domain with a number exactly if that domain names it as
its opening link. -/
theorem startedBy?_eq_some_iff {i k : Nat} : (ofDiagram rules d).startedBy? i = some k
    ↔ ∃ x, (ofDiagram rules d).domains[k]? = some x ∧ x.starter = i := by
  unfold startedBy?
  rw [findIdx?_eq_some_iff_of_unique]
  · simp only [beq_iff_eq]
  · intro m n x y hx hy hxi hyi
    have heq : x = y := (mem_domains.mp (List.mem_of_getElem? hx)).eq_of_starter_eq
      (mem_domains.mp (List.mem_of_getElem? hy)) (by rw [beq_iff_eq.mp hxi, beq_iff_eq.mp hyi])
    obtain ⟨hm, -⟩ := List.getElem?_eq_some_iff.mp hx
    have hnodup : (ofDiagram rules d).domains.Nodup :=
      (pairwise_domains rules d).imp fun hlt heq => (heq ▸ hlt).false
    exact (List.getElem?_inj hm hnodup).mp (by rw [hx, hy, heq])

end DomainTable

end LinkParse
