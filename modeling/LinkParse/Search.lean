/-!
# Breadth-first search

One search serves all questions about what is joined with what: it starts at
a word and puts into a queue, once each, the words that are next to the word
at the queue's front. Which words are next to a word is given by the caller.

A step takes one word off the queue, and a word enters the queue once, so a
sentence of `n` words needs no more than `n` steps.
-/

namespace LinkParse

namespace Search

/-- A search under way: every word that has entered the queue, in that
order, and those that are still in it. -/
structure Sweep where
  found : List Nat
  queue : List Nat
deriving Repr, DecidableEq

/-- The words of a list that have not been found yet, once each. -/
def fresh (found : List Nat) : List Nat → List Nat
  | [] => []
  | w :: ws => if w ∈ found then fresh found ws else w :: fresh (w :: found) ws

/-- Takes the front word off the queue and puts in its new neighbours. -/
def Sweep.step (next : Nat → List Nat) (s : Sweep) : Sweep :=
  match s.queue with
  | [] => s
  | w :: queue =>
    let new := fresh s.found (next w)
    ⟨s.found ++ new, queue ++ new⟩

def Sweep.run (next : Nat → List Nat) : Nat → Sweep → Sweep
  | 0, s => s
  | steps + 1, s => run next steps (s.step next)

/-- The search from a word in a sentence of `words` words. -/
def sweepFrom (words : Nat) (next : Nat → List Nat) (start : Nat) : Sweep :=
  Sweep.run next words ⟨[start], [start]⟩

/-- The words that are joined with the start, in the order in which the
search finds them. -/
def reached (words : Nat) (next : Nat → List Nat) (start : Nat) : List Nat :=
  (sweepFrom words next start).found

/-- The groups of joined words, each in the order of its search. A group is
searched from its smallest word, so the groups are in the order of these;
a word that is next to none is in no group. -/
def groupsAmong (words : Nat) (next : Nat → List Nat) : List Nat → List (List Nat) → List (List Nat)
  | [], groups => groups
  | w :: ws, groups =>
    if (next w).isEmpty || groups.any (·.contains w) then groupsAmong words next ws groups
    else groupsAmong words next ws (groups ++ [reached words next w])

def groups (words : Nat) (next : Nat → List Nat) : List (List Nat) :=
  groupsAmong words next (List.range words) []

/-! ## A search for one word -/

/-- Whether the search comes to a word within some steps. It ends as soon as
that word is next to the one at the queue's front, so the word that it looks
for never enters the queue. -/
def Sweep.comesTo (next : Nat → List Nat) (goal : Nat) : Nat → Sweep → Bool
  | 0, _ => false
  | steps + 1, s =>
    match s.queue with
    | [] => false
    | w :: _ => (next w).contains goal || comesTo next goal steps (s.step next)

/-- Whether the search from a word comes to another one. -/
def comesTo (words : Nat) (next : Nat → List Nat) (start goal : Nat) : Bool :=
  Sweep.comesTo next goal words ⟨[start], [start]⟩

/-! ## Groups by number -/

/-- A numbering under way: the numbers of the words so far, and the words of
the current number that are still in the queue. -/
structure Numbering where
  numbers : List (Option Nat)
  queue : List Nat
deriving Repr, DecidableEq

/-- Gives the current number to a word that has none, and puts it into the
queue. -/
def Numbering.visit (number : Nat) (s : Numbering) (w : Nat) : Numbering :=
  if s.numbers[w]? = some none then ⟨s.numbers.set w (some number), s.queue ++ [w]⟩ else s

def Numbering.step (next : Nat → List Nat) (number : Nat) (s : Numbering) : Numbering :=
  match s.queue with
  | [] => s
  | w :: queue => (next w).foldl (visit number) ⟨s.numbers, queue⟩

def Numbering.run (next : Nat → List Nat) (number : Nat) : Nat → Numbering → Numbering
  | 0, s => s
  | steps + 1, s => run next number steps (s.step next number)

/-- Numbers the groups of joined words, one after the other, in one row for
all words. A word that has a number by then, or is next to none, begins no
group. -/
def numbersAmong (words : Nat) (next : Nat → List Nat) :
    List Nat → Nat → List (Option Nat) → List (Option Nat)
  | [], _, numbers => numbers
  | w :: ws, number, numbers =>
    if (next w).isEmpty || numbers[w]?.join.isSome then numbersAmong words next ws number numbers
    else
      let s := Numbering.run next number words ⟨numbers.set w (some number), [w]⟩
      numbersAmong words next ws (number + 1) s.numbers

def numbers (words : Nat) (next : Nat → List Nat) : List (Option Nat) :=
  numbersAmong words next (List.range words) 0 (List.replicate words none)

end Search

end LinkParse
