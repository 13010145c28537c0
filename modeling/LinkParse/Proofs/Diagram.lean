import LinkParse.Diagram
import LinkParse.Proofs.Search
import Mathlib.Data.Prod.Lex
import Mathlib.Order.Bounds.Basic

/-!
# Arcs as a graph

What the arcs of a diagram say about its words, without any search: which
words an arc joins, which are connected by a path of arcs, which are linked
at all. The neighbours that the searches go by are the joined words
(`mem_neighboursBy`), so a search finds the connected ones.

The canonical order is the strict order of left words and indices
(`pairwise_canonical`), and every arc is in it under its own index
(`mem_canonical`).
-/

namespace LinkParse

/-! ## Linkages as diagrams -/

theorem Linkage.right_lt_words_arcs (k : Linkage) :
    ∀ a ∈ k.links.map Link.arc, a.right < k.words := by
  intro a ha
  obtain ⟨l, hl, rfl⟩ := List.mem_map.mp ha
  exact k.right_lt_words l hl

/-- The diagram of a linkage. A link without a label counts as one with the
empty label, so it says something only of linkages that are labeled. -/
def Linkage.diagram (k : Linkage) : Diagram where
  words := k.words
  arcs := k.links.map Link.arc
  right_lt_words := k.right_lt_words_arcs

theorem Linkage.diagram?_of_isLabeled {k : Linkage} (h : k.isLabeled = true) :
    k.diagram? = some k.diagram := by
  unfold Linkage.diagram?
  rw [if_pos h]
  rfl

@[simp] theorem Linkage.length_arcs_diagram (k : Linkage) : k.diagram.arcs.length = k.size :=
  List.length_map _

theorem Linkage.getElem?_arcs_diagram {k : Linkage} {i : Nat} {a : Arc} :
    k.diagram.arcs[i]? = some a ↔ ∃ l, k.links[i]? = some l ∧ l.arc = a := by
  rw [show k.diagram.arcs = k.links.map Link.arc from rfl, List.getElem?_map,
    Option.map_eq_some_iff]

/-! ## Joined words -/

/-- The two words are the ends of the arc. -/
def Arc.Joins (a : Arc) (u v : Nat) : Prop :=
  (a.left = u ∧ a.right = v) ∨ (a.left = v ∧ a.right = u)

theorem Arc.Joins.symm {a : Arc} {u v : Nat} (h : a.Joins u v) : a.Joins v u := Or.symm h

theorem Arc.across?_eq_some_iff {a : Arc} {u v : Nat} : a.across? u = some v ↔ a.Joins u v := by
  have hlt := a.left_lt_right
  unfold Arc.across? Arc.Joins
  by_cases hl : a.left = u
  · rw [if_pos hl, Option.some.injEq]
    omega
  · rw [if_neg hl]
    by_cases hr : a.right = u
    · rw [if_pos hr, Option.some.injEq]
      omega
    · rw [if_neg hr]
      simp [hl, hr]

namespace Diagram

/-- Some of the arcs joins the two words. -/
def Adjacent (arcs : List Arc) (u v : Nat) : Prop := ∃ a ∈ arcs, a.Joins u v

/-- A path of arcs leads from one word to the other. -/
def Connected (arcs : List Arc) : Nat → Nat → Prop := Relation.ReflTransGen (Adjacent arcs)

/-- The word is an end of some of the arcs. -/
def IsLinked (arcs : List Arc) (w : Nat) : Prop := ∃ a ∈ arcs, a.left = w ∨ a.right = w

variable {arcs : List Arc} {u v w : Nat}

theorem Adjacent.symm (h : Adjacent arcs u v) : Adjacent arcs v u := by
  obtain ⟨a, ha, hj⟩ := h
  exact ⟨a, ha, hj.symm⟩

theorem Adjacent.isLinked_right (h : Adjacent arcs u v) : IsLinked arcs v := by
  obtain ⟨a, ha, ⟨-, hr⟩ | ⟨hl, -⟩⟩ := h
  · exact ⟨a, ha, Or.inr hr⟩
  · exact ⟨a, ha, Or.inl hl⟩

theorem Connected.symm (h : Connected arcs u v) : Connected arcs v u := by
  induction h with
  | refl => exact Relation.ReflTransGen.refl
  | tail _ hv ih => exact ih.head hv.symm

theorem connected_of_mem {a : Arc} (ha : a ∈ arcs) : Connected arcs a.left a.right :=
  Relation.ReflTransGen.single ⟨a, ha, Or.inl ⟨rfl, rfl⟩⟩

theorem exists_isLeast_isLinked (h : IsLinked arcs w) :
    ∃ first, IsLeast {v | IsLinked arcs v} first := by
  classical
  have hex : ∃ v, IsLinked arcs v := ⟨w, h⟩
  exact ⟨Nat.find hex, Nat.find_spec hex, fun v hv => Nat.find_min' hex hv⟩

theorem mem_neighboursBy : v ∈ neighboursBy arcs u ↔ Adjacent arcs u v := by
  unfold neighboursBy Adjacent
  rw [List.mem_filterMap]
  exact exists_congr fun a => and_congr_right fun _ => Arc.across?_eq_some_iff

theorem mem_neighboursBy_symm (arcs : List Arc) :
    ∀ u v, v ∈ neighboursBy arcs u → u ∈ neighboursBy arcs v :=
  fun _ _ h => mem_neighboursBy.mpr (mem_neighboursBy.mp h).symm

theorem neighboursBy_ne_nil_iff : neighboursBy arcs w ≠ [] ↔ IsLinked arcs w := by
  constructor
  · intro h
    obtain ⟨v, hv⟩ := List.exists_mem_of_ne_nil _ h
    exact (mem_neighboursBy.mp hv).symm.isLinked_right
  · rintro ⟨a, ha, rfl | rfl⟩
    · exact List.ne_nil_of_mem (mem_neighboursBy.mpr ⟨a, ha, Or.inl ⟨rfl, rfl⟩⟩)
    · exact List.ne_nil_of_mem (mem_neighboursBy.mpr ⟨a, ha, Or.inr ⟨rfl, rfl⟩⟩)

theorem leads_neighboursBy : Search.Leads (neighboursBy arcs) u v ↔ Connected arcs u v := by
  have heq : (fun u v => v ∈ neighboursBy arcs u) = Adjacent arcs :=
    funext fun u => funext fun v => propext mem_neighboursBy
  unfold Search.Leads Connected
  rw [heq]

theorem mem_arcsAt {d : Diagram} {i : Nat} :
    i ∈ d.arcsAt w ↔ ∃ a, d.arcs[i]? = some a ∧ (a.left = w ∨ a.right = w) := by
  unfold arcsAt Arc.touches
  simp only [mem_positions_iff, Bool.or_eq_true, beq_iff_eq]

/-- Arcs that end within a sentence join its words only. -/
theorem lt_of_mem_neighboursBy {words : Nat} (harcs : ∀ a ∈ arcs, a.right < words) :
    ∀ u, ∀ v ∈ neighboursBy arcs u, v < words := by
  intro u v hv
  obtain ⟨a, ha, ⟨-, rfl⟩ | ⟨rfl, -⟩⟩ := mem_neighboursBy.mp hv
  · exact harcs a ha
  · exact Nat.lt_trans a.left_lt_right (harcs a ha)

theorem left_lt_words {d : Diagram} {a : Arc} (ha : a ∈ d.arcs) : a.left < d.words :=
  Nat.lt_trans a.left_lt_right (d.right_lt_words a ha)

theorem right_lt_words_eraseIdx (d : Diagram) (i : Nat) :
    ∀ a ∈ d.arcs.eraseIdx i, a.right < d.words := fun a ha =>
  d.right_lt_words a (List.mem_of_mem_eraseIdx ha)

/-- A search over arcs finds exactly the words connected with its start. -/
theorem mem_reached_neighboursBy {words : Nat} (harcs : ∀ a ∈ arcs, a.right < words)
    (hu : u < words) : v ∈ Search.reached words (neighboursBy arcs) u ↔ Connected arcs u v := by
  rw [← leads_neighboursBy]
  exact Search.mem_reached fun w hw => hw.lt_words (lt_of_mem_neighboursBy harcs) hu

/-! ## Canonical order -/

/-- The comparison by which the canonical order is sorted. -/
theorem canonical_le_iff {x y : Arc × Nat} :
    (x.1.left < y.1.left || (x.1.left == y.1.left && x.2 ≤ y.2)) = true
      ↔ toLex (x.1.left, x.2) ≤ toLex (y.1.left, y.2) := by
  rw [Prod.Lex.toLex_le_toLex]
  simp

theorem mem_canonical {d : Diagram} {a : Arc} {i : Nat} :
    (a, i) ∈ d.canonical ↔ d.arcs[i]? = some a := by
  unfold canonical
  rw [Sorting.mem_sort, List.mk_mem_zipIdx_iff_getElem?]

/-- The canonical order ascends strictly, by left word and then by index. -/
theorem pairwise_canonical (d : Diagram) :
    d.canonical.Pairwise fun x y => toLex (x.1.left, x.2) < toLex (y.1.left, y.2) := by
  have hle : d.canonical.Pairwise fun x y => toLex (x.1.left, x.2) ≤ toLex (y.1.left, y.2) := by
    refine (Sorting.pairwise_sort ?_ ?_ _).imp canonical_le_iff.mp
    · intro a b c hab hbc
      rw [canonical_le_iff] at *
      exact hab.trans hbc
    · intro a b
      rw [canonical_le_iff, canonical_le_iff]
      exact le_total _ _
  have hindices : (d.canonical.map Prod.snd).Nodup := by
    refine ((Sorting.sort_perm _ d.arcs.zipIdx).map Prod.snd).nodup_iff.mpr ?_
    rw [List.zipIdx_map_snd]
    exact List.nodup_range'
  refine (hle.and (List.pairwise_map.mp hindices)).imp fun {x y} ⟨hxy, hne⟩ => ?_
  refine lt_of_le_of_ne hxy fun heq => hne ?_
  exact congrArg (fun p => (ofLex p).2) heq

end Diagram

end LinkParse
