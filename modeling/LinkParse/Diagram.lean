import LinkParse.Linkage

/-!
# Diagrams

The analysis of a linkage looks at nothing but its words, the ends of its
links and their labels. A diagram holds just these: one *arc* for each link,
in the order of the links, so that a link and its arc have one index.
-/

namespace LinkParse

structure Arc where
  left : Nat
  right : Nat
  label : String
  left_lt_right : left < right
deriving Repr

namespace Arc

theorem ext_iff {a b : Arc} :
    a = b ↔ a.left = b.left ∧ a.right = b.right ∧ a.label = b.label := by
  cases a
  cases b
  simp

instance : DecidableEq Arc := fun _ _ => decidable_of_iff _ ext_iff.symm

def touches (a : Arc) (word : Nat) : Bool := a.left == word || a.right == word

/-- The word that the arc joins with the given one. -/
def across? (a : Arc) (word : Nat) : Option Nat :=
  if a.left = word then some a.right else if a.right = word then some a.left else none

/-- The order of arcs in a sentence: by left word, then by right word. -/
def precedes (a b : Arc) : Bool := a.left < b.left || (a.left == b.left && a.right < b.right)

def text (a : Arc) : String := s!"{a.label} ({a.left}, {a.right})"

end Arc

structure Diagram where
  words : Nat
  arcs : List Arc
  right_lt_words : ∀ a ∈ arcs, a.right < words
deriving DecidableEq

/-- The arc of a link, whose label is the empty text if it has none. -/
def Link.arc (l : Link) : Arc where
  left := l.left
  right := l.right
  label := (l.label.map Label.text).getD ""
  left_lt_right := l.left_lt_right

/-- The diagram of a linkage of which every link has a label. -/
def Linkage.diagram? (k : Linkage) : Option Diagram :=
  if k.isLabeled then
    some {
      words := k.words
      arcs := k.links.map Link.arc
      right_lt_words := by
        intro a ha
        obtain ⟨l, hl, rfl⟩ := List.mem_map.1 ha
        exact k.right_lt_words l hl }
  else none

namespace Diagram

/-- The label of the arc with an index, empty if there is none. -/
def label (d : Diagram) (i : Nat) : String := (d.arcs[i]?.map Arc.label).getD ""

def describe (d : Diagram) (i : Nat) : String := (d.arcs[i]?.map Arc.text).getD ""

/-- The arcs with their indices, by left word and then by index. -/
def canonical (d : Diagram) : List (Arc × Nat) :=
  Sorting.sort (fun a b => a.1.left < b.1.left || (a.1.left == b.1.left && a.2 ≤ b.2))
    d.arcs.zipIdx

/-- The indices of the arcs that touch a word, ascending. -/
def arcsAt (d : Diagram) (word : Nat) : List Nat :=
  (d.arcs.zipIdx.filter fun (a, _) => a.touches word).map (·.2)

/-- The words that some of the arcs join with a word, in the order of the
arcs. -/
def neighboursBy (arcs : List Arc) (word : Nat) : List Nat := arcs.filterMap (·.across? word)

def neighbours (d : Diagram) (word : Nat) : List Nat := neighboursBy d.arcs word

end Diagram

end LinkParse
