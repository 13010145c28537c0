import LinkParse.Binary64.Shortest
import LinkParse.Link
import LinkParse.Sorting

/-!
# Linkages

A linkage is one candidate parse of a sentence: links between its words,
and the total cost of the word uses chosen for it. Words are numbered from
zero; a word that no link touches is a *null word*.

What every linkage satisfies is part of the type: the links stay within the
sentence, the cost is finite, and links that join the same two words have
the same connectors. The same link may occur several times.
-/

namespace LinkParse

structure Linkage where
  words : Nat
  links : List Link
  cost : Binary64
  cost_finite : cost.isFinite = true
  right_lt_words : ∀ l ∈ links, l.right < words
  connectors_agree : ∀ l ∈ links, ∀ m ∈ links, l.joinsSameWords m = true → l.sameConnectors m = true

namespace Linkage

theorem ext_iff {k m : Linkage} :
    k = m ↔ k.words = m.words ∧ k.links = m.links ∧ k.cost = m.cost := by
  cases k
  cases m
  simp

instance : DecidableEq Linkage := fun _ _ => decidable_of_iff _ ext_iff.symm

/-! ## Making linkages -/

inductive Fault where
  | cost (value : Binary64)
  | outside (index left right words : Nat)
  | conflict (earlier later left right : Nat)
deriving DecidableEq

def Fault.message : Fault → String
  | cost value => s!"disjunct cost must be finite, got {value.text}"
  | outside index left right words =>
    s!"link {index} ({left}, {right}) is outside a {words}-word sentence"
  | conflict earlier later left right =>
    s!"links {earlier} and {later} join words ({left}, {right}) with different connectors"

/-- The fault of one link: it leaves the sentence, or its connectors differ
from those of the first link between the same words. -/
def linkFault? (words : Nat) (links : List Link) (link : Link) (index : Nat) : Option Fault :=
  if words ≤ link.right then some (.outside index link.left link.right words)
  else
    match links.zipIdx.find? fun (other, _) => other.joinsSameWords link with
    | none => none
    | some (other, earlier) =>
      if other.sameConnectors link then none
      else some (.conflict earlier index link.left link.right)

def firstFault? (words : Nat) (links : List Link) : Option Fault :=
  links.zipIdx.findSome? fun (link, index) => linkFault? words links link index

theorem linkFault?_eq_none {words : Nat} {links : List Link}
    (h : firstFault? words links = none) {l : Link} (hl : l ∈ links) :
    ∃ i, linkFault? words links l i = none := by
  rw [firstFault?, List.findSome?_eq_none_iff] at h
  obtain ⟨i, hi, rfl⟩ := List.mem_iff_getElem.1 hl
  exact ⟨i, h (links[i], i) (List.mem_zipIdx_iff_getElem?.2 (by simp [hi]))⟩

theorem right_lt_of_firstFault? {words : Nat} {links : List Link}
    (h : firstFault? words links = none) : ∀ l ∈ links, l.right < words := by
  intro l hl
  obtain ⟨i, hi⟩ := linkFault?_eq_none h hl
  rw [linkFault?] at hi
  split at hi
  · cases hi
  · omega

/-- Each link has the connectors of the first link between its words, so
any two links between the same words have the same. -/
theorem agree_of_firstFault? {words : Nat} {links : List Link}
    (h : firstFault? words links = none) :
    ∀ l ∈ links, ∀ m ∈ links, l.joinsSameWords m = true → l.sameConnectors m = true := by
  have first : ∀ l ∈ links, ∃ f i,
      (links.zipIdx.find? fun (other, _) => other.joinsSameWords l) = some (f, i) ∧
        f.sameConnectors l = true := by
    intro l hl
    obtain ⟨i, hi⟩ := linkFault?_eq_none h hl
    have found : ∃ x, (links.zipIdx.find? fun (other, _) => other.joinsSameWords l) = some x := by
      obtain ⟨j, hj, rfl⟩ := List.mem_iff_getElem.1 hl
      rw [← Option.isSome_iff_exists, List.find?_isSome]
      exact ⟨(links[j], j), List.mem_zipIdx_iff_getElem?.2 (by simp [hj]),
        by simp [Link.joinsSameWords]⟩
    obtain ⟨⟨f, j⟩, hf⟩ := found
    refine ⟨f, j, hf, ?_⟩
    rw [linkFault?, hf] at hi
    split at hi
    · cases hi
    · simpa using hi
  intro l hl m hm hlm
  obtain ⟨f, i, hf, hfl⟩ := first l hl
  obtain ⟨g, j, hg, hgm⟩ := first m hm
  have ends : l.left = m.left ∧ l.right = m.right := by simpa [Link.joinsSameWords] using hlm
  have same : (fun (p : Link × Nat) => p.1.joinsSameWords l)
      = fun (p : Link × Nat) => p.1.joinsSameWords m := by
    funext p
    simp [Link.joinsSameWords, ends]
  rw [same, hg] at hf
  cases hf
  simp only [Link.sameConnectors, Bool.and_eq_true, beq_iff_eq] at *
  exact ⟨hfl.1.symm.trans hgm.1, hfl.2.symm.trans hgm.2⟩

/-- A linkage of words, links and a cost. A cost that is not finite is
reported before any fault of a link. -/
def make (words : Nat) (links : List Link) (cost : Binary64) : Except Fault Linkage :=
  if cost_finite : cost.isFinite = true then
    match h : firstFault? words links with
    | some fault => .error fault
    | none =>
      .ok { words, links, cost, cost_finite,
            right_lt_words := right_lt_of_firstFault? h
            connectors_agree := agree_of_firstFault? h }
  else .error (.cost cost)

def empty (words : Nat) : Linkage where
  words := words
  links := []
  cost := .zero
  cost_finite := Binary64.isFinite_zero
  right_lt_words := by simp
  connectors_agree := by simp

/-! ## Links and null words -/

def size (k : Linkage) : Nat := k.links.length

/-- One flag for each word, set where a link ends. -/
def linkedFlags (k : Linkage) : List Bool :=
  k.links.foldl (fun flags l => (flags.set l.left true).set l.right true)
    (List.replicate k.words false)

def nullCount (k : Linkage) : Nat := k.linkedFlags.count false

/-- The null words, ascending. -/
def nullWords (k : Linkage) : List Nat :=
  (List.range k.words).filter fun w => !k.links.any (·.touches w)

def isLabeled (k : Linkage) : Bool := k.links.all (·.label.isSome)

/-! ## Canonical order -/

/-- The links with their indices, by left word and then by index. -/
def canonical (k : Linkage) : List (Link × Nat) :=
  Sorting.sort (fun a b => a.1.left < b.1.left || (a.1.left == b.1.left && a.2 ≤ b.2))
    k.links.zipIdx

/-! ## Spans -/

/-- The sum of the spans, as a number without bound. A 64-bit sum would
overflow from `2 ^ 64` on. -/
def totalSpan (k : Linkage) : Nat := (k.links.map Link.span).foldl (· + ·) 0

/-- The longest span, zero without links. -/
def maxSpan (k : Linkage) : Nat := (k.links.map Link.span).foldl max 0

/-! ## Changing labels -/

/-- The linkage with other labels on its links. -/
def relabel (k : Linkage) (links : List Link) (h : links.map Link.bare = k.links.map Link.bare) :
    Linkage :=
  have old : ∀ l ∈ links, ∃ m ∈ k.links, m.bare = l.bare := by
    intro l hl
    have : l.bare ∈ k.links.map Link.bare := h ▸ List.mem_map_of_mem hl
    simpa using this
  { k with
    links
    right_lt_words := by
      intro l hl
      obtain ⟨m, hm, e⟩ := old l hl
      have : m.bare.right = l.bare.right := congrArg Link.right e
      exact (show m.right = l.right from this) ▸ k.right_lt_words m hm
    connectors_agree := by
      intro l hl l' hl' ends
      obtain ⟨m, hm, e⟩ := old l hl
      obtain ⟨m', hm', e'⟩ := old l' hl'
      have := k.connectors_agree m hm m' hm'
      rw [show l.joinsSameWords l' = l.bare.joinsSameWords l'.bare from rfl, ← e, ← e'] at ends
      rw [show l.sameConnectors l' = l.bare.sameConnectors l'.bare from rfl, ← e, ← e']
      exact this ends }

/-! ## Equality -/

/-- Equality of linkages: labels are compared as labels and costs as
numbers, so that the two zeros are equal. -/
def same (k m : Linkage) : Bool :=
  k.words == m.words && k.size == m.size && (k.links.zip m.links).all (fun (a, b) => a.same b) &&
    k.cost.sameNumber m.cost

end Linkage

end LinkParse
