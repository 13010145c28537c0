import LinkParse.Attempt
import LinkParse.Domain

/-!
# Searches through tables

`Search.reached` and its like are told which words are next to a word. A walk
finds that out by index: it looks up the links at the word, the arc of each
link, and the mark of the word at the arc's other end. Every look-up is
checked, so a walk can fail, namely on tables that do not fit together.

One loop serves the three questions that are answered by searching. What
sets them apart is the *manner* of the walk: a link that it leaves out, a word
that it stays right of, a word at which it ends.

The loop has no bound. It ends since a word is marked when it enters the
queue: a turn takes a word off the queue, and what it puts in had no mark
before (`Walk.load_step`).
-/

namespace LinkParse

/-- The word at the other end, seen from one of the arc's words. -/
def Arc.otherEnd (a : Arc) (word : Nat) : Nat := if a.left = word then a.right else a.left

namespace Search

/-! ## Checked look-ups -/

/-- The element with an index, which must be one. -/
def lookUp {α : Type} (xs : List α) (i : Nat) : Except IndexFault α :=
  match xs[i]? with
  | some x => .ok x
  | none => .error ⟨xs.length, i⟩

theorem lookUp_eq_ok_iff {α : Type} {xs : List α} {i : Nat} {x : α} :
    lookUp xs i = .ok x ↔ xs[i]? = some x := by
  unfold lookUp
  cases xs[i]? <;> simp

/-- The list with another element at an index, which must be one. -/
def replace {α : Type} (xs : List α) (i : Nat) (x : α) : Except IndexFault (List α) :=
  if i < xs.length then .ok (xs.set i x) else .error ⟨xs.length, i⟩

/-- What a walk goes through: the links at each word, by their indices, and
the arc of each link. -/
structure Tables where
  linksAt : List (List Nat)
  arcs : List Arc
deriving Repr, DecidableEq

/-! ## Walks -/

/-- What one walk does and others do not. -/
structure Manner where
  /-- The mark that it gives to words. -/
  mark : Nat := 0
  /-- The link that it leaves out. -/
  without? : Option Nat := none
  /-- The word that it stays right of. -/
  root? : Option Nat := none
  /-- The word at which it ends. -/
  goal? : Option Nat := none
deriving Repr, DecidableEq

/-- Whether a word is out of bounds for the walk. -/
def Manner.bars (m : Manner) (word : Nat) : Bool := m.root?.any (word ≤ ·)

/-- A walk under way: the marks of all words, the words in the queue, and those
that have left it, in the order in which they did. -/
structure Walk where
  marks : List (Option Nat)
  queue : List Nat := []
  taken : List Nat := []
  arrived : Bool := false
deriving Repr, DecidableEq

namespace Walk

/-- Marks a word and puts it into the queue. -/
def enter (mark : Nat) (s : Walk) (word : Nat) : Except IndexFault Walk := do
  let marks ← replace s.marks word (some mark)
  return { s with marks, queue := s.queue ++ [word] }

/-- Comes to a word, which enters the queue if it has no mark. -/
def reach (m : Manner) (s : Walk) (word : Nat) : Except IndexFault Walk :=
  if m.goal? = some word then .ok { s with arrived := true }
  else if m.bars word then .ok s
  else do
    match ← lookUp s.marks word with
    | some _ => return s
    | none => s.enter m.mark word

/-- Follows a link from a word to the link's other word. -/
def follow (m : Manner) (arcs : List Arc) (word : Nat) (s : Walk) (link : Nat) :
    Except IndexFault Walk :=
  if m.without? = some link then .ok s
  else do
    let a ← lookUp arcs link
    s.reach m (a.otherEnd word)

/-- Follows links from a word until one of them leads to the goal. -/
def followAll (m : Manner) (arcs : List Arc) (word : Nat) :
    List Nat → Walk → Except IndexFault Walk
  | [], s => .ok s
  | link :: links, s => do
    let t ← s.follow m arcs word link
    if t.arrived then return t else followAll m arcs word links t

/-- Takes the front word off the queue and follows the links at it. -/
def step (m : Manner) (t : Tables) (s : Walk) : Except IndexFault Walk :=
  match s.queue with
  | [] => .ok s
  | word :: queue => do
    let links ← lookUp t.linksAt word
    followAll m t.arcs word links { s with queue, taken := s.taken ++ [word] }

/-! ## Why a walk ends -/

/-- How many turns are left at most: one for each word in the queue, and one
for each word that may still enter it. -/
def load (s : Walk) : Nat := s.marks.countP Option.isNone + s.queue.length

variable {m : Manner} {s s' : Walk} {word : Nat}

/-- A word that enters the queue had no mark, so it was counted before. -/
theorem load_enter {mark : Nat} (hfree : s.marks[word]? = some none)
    (h : s.enter mark word = .ok s') : s'.load = s.load := by
  obtain ⟨hlt, hnone⟩ := List.getElem?_eq_some_iff.mp hfree
  have hpos : 0 < s.marks.countP Option.isNone :=
    List.countP_pos_iff.mpr ⟨none, List.mem_of_getElem? hfree, rfl⟩
  unfold enter replace at h
  rw [if_pos hlt] at h
  cases h
  simp [load, List.countP_set, hlt, hnone]
  omega

theorem load_reach (h : s.reach m word = .ok s') : s'.load = s.load := by
  unfold reach at h
  split at h
  · cases h
    rfl
  · split at h
    · cases h
      rfl
    · obtain ⟨mark, hmark, h⟩ := bind_eq_ok_iff.mp h
      cases mark with
      | none => exact load_enter (lookUp_eq_ok_iff.mp hmark) h
      | some _ =>
          cases h
          rfl

theorem load_follow {arcs : List Arc} {link : Nat} (h : s.follow m arcs word link = .ok s') :
    s'.load = s.load := by
  unfold follow at h
  split at h
  · cases h
    rfl
  · obtain ⟨a, -, h⟩ := bind_eq_ok_iff.mp h
    exact load_reach h

theorem load_followAll {arcs : List Arc} : ∀ {links : List Nat} {s : Walk},
    followAll m arcs word links s = .ok s' → s'.load = s.load
  | [], _, h => by
      cases h
      rfl
  | link :: links, s, h => by
      obtain ⟨t, hfollow, h⟩ := bind_eq_ok_iff.mp h
      have hload := load_follow hfollow
      split at h
      · cases h
        exact hload
      · exact (load_followAll h).trans hload

/-- A turn takes one word off the queue, and what it puts in was counted
before. -/
theorem load_step {t : Tables} (hqueue : s.queue ≠ []) (h : s.step m t = .ok s') :
    s'.load + 1 = s.load := by
  unfold step at h
  cases hq : s.queue with
  | nil => exact absurd hq hqueue
  | cons word queue =>
      rw [hq] at h
      obtain ⟨links, -, h⟩ := bind_eq_ok_iff.mp h
      have hload := load_followAll h
      simp only [load, hq, List.length_cons] at hload ⊢
      omega

/-- Goes on until the queue is empty or the walk has come to its goal. -/
def run (m : Manner) (t : Tables) (s : Walk) : Except IndexFault Walk :=
  if s.arrived || s.queue.isEmpty then .ok s
  else
    match _h : s.step m t with
    | .error fault => .error fault
    | .ok s' => run m t s'
termination_by s.load
decreasing_by
  rename_i hgoes
  have hqueue : s.queue ≠ [] := by
    intro hnil
    simp [hnil] at hgoes
  have hload := load_step hqueue _h
  omega

end Walk

/-! ## The three questions -/

namespace Tables

/-- A walk that has not begun. -/
def idle (t : Tables) : Walk where
  marks := List.replicate t.linksAt.length none

/-- Goes on from a word, with the marks of the walks before. -/
def walkFrom (t : Tables) (m : Manner) (start : Nat) (s : Walk) : Except IndexFault Walk := do
  let s ← s.enter m.mark start
  s.run m t

/-- Takes the words that the domain of a link reaches. -/
def domainWalk (t : Tables) (link : Nat) : Except IndexFault Walk := do
  let a ← lookUp t.arcs link
  t.walkFrom { root? := some a.left } a.right t.idle

/-- Looks for a way round a link. -/
def detourWalk (t : Tables) (link : Nat) : Except IndexFault Walk := do
  let a ← lookUp t.arcs link
  t.walkFrom { without? := some link, goal? := some a.right } a.left t.idle

/-- Walks on from each word that has a link and no mark yet, with a mark of its
own. -/
def componentWalkAmong (t : Tables) : List Nat → Nat → Walk → Except IndexFault Walk
  | [], _, s => .ok s
  | word :: words, number, s => do
    match ← lookUp s.marks word with
    | some _ => componentWalkAmong t words number s
    | none =>
      let links ← lookUp t.linksAt word
      if links.isEmpty then componentWalkAmong t words number s
      else
        let s ← t.walkFrom { mark := number } word s
        componentWalkAmong t words (number + 1) s

/-- Marks each word with the number of its component. -/
def componentWalk (t : Tables) : Except IndexFault Walk :=
  t.componentWalkAmong (List.range t.linksAt.length) 0 t.idle

end Tables

end Search

/-- The rows and arcs of a domain table, for walks. -/
def DomainTable.tables (t : DomainTable) : Search.Tables where
  linksAt := t.rows.linksAt
  arcs := t.diagram.arcs

end LinkParse
