import LinkParse.Diagram
import LinkParse.Rule
import LinkParse.Search

/-!
# Domains

A link whose label a starter accepts opens a domain. The domain's *root* is
the link's left word; the domain reaches the link's right word and, with
full reach, every word that is joined with it by links right of the root.
Its members are the opening link and every link that touches a reached
word.

`DomainTable` holds the domains of a diagram in the canonical order of
their opening links, with the look-ups that the checks need.
-/

namespace LinkParse

/-- A domain of a kind, opened by the link with index `starter`. It spans
the words from its root `start` to the last word reached; `members` are
link indices, ascending. -/
structure Domain where
  kind : String
  starter : Nat
  start : Nat
  last : Nat
  members : List Nat
deriving Repr, DecidableEq

namespace Domain

/-- Whether two domains overlap without one holding the other: the later
one begins inside the earlier one and ends behind it. -/
def crosses (a b : Domain) : Bool :=
  let (a, b) := if a.start ≤ b.start then (a, b) else (b, a)
  a.start < b.start && b.start < a.last && a.last < b.last

/-- Looks for a link among ascending members by halving the list. -/
def bisect (link : Nat) : List Nat → Bool
  | [] => false
  | [m] => m == link
  | a :: b :: rest =>
    let members := a :: b :: rest
    let half := members.length / 2
    if link < members.getD half 0 then bisect link (members.take (members.length - half))
    else bisect link (members.drop half)
termination_by members => members.length
decreasing_by
  all_goals simp
  all_goals omega

def contains (d : Domain) (link : Nat) : Bool := bisect link d.members

def reachedWords (d : Diagram) (reach : Reach) (opening : Arc) : List Nat :=
  match reach with
  | .rightWordOnly => [opening.right]
  | .full =>
    Search.reached d.words (fun w => (d.neighbours w).filter (opening.left < ·)) opening.right

def openedBy (d : Diagram) (starter : Starter) (opening : Arc) (index : Nat) : Domain :=
  let reached := reachedWords d starter.reach opening
  { kind := starter.domain
    starter := index
    start := opening.left
    last := reached.foldl max opening.right
    members := Sorting.dedup (Sorting.sort (· ≤ ·) (reached.flatMap d.arcsAt ++ [index])) }

end Domain

/-- An index that is not below the length of what it indexes. -/
structure IndexFault where
  length : Nat
  index : Nat
deriving Repr, DecidableEq

def IndexFault.message (e : IndexFault) : String :=
  s!"index out of bounds: the len is {e.length} but the index is {e.index}"

/-- The domains of a diagram, and its groups of joined words. -/
structure DomainTable where
  diagram : Diagram
  domains : List Domain
  groups : List (List Nat)
deriving DecidableEq

namespace DomainTable

/-- Every arc whose label has a starter opens a domain. -/
def ofDiagram (rules : RuleSet) (d : Diagram) : DomainTable where
  diagram := d
  domains := d.canonical.filterMap fun (a, i) =>
    (rules.starterFor? a.label).map fun starter => Domain.openedBy d starter a i
  groups := Search.groups d.words d.neighbours

def startedBy? (t : DomainTable) (link : Nat) : Option Nat :=
  t.domains.findIdx? (·.starter == link)

/-- The numbers of the domains that a link is a member of, ascending. -/
def domainsOf (t : DomainTable) (link : Nat) : List Nat :=
  (t.domains.zipIdx.filter fun (d, _) => d.members.contains link).map (·.2)

def domainsAround (t : DomainTable) (link : Nat) : List Domain :=
  t.domains.filter (·.members.contains link)

def linksAt (t : DomainTable) (word : Nat) : List Nat := t.diagram.arcsAt word

/-- The number of the group that a word belongs to; null words belong to
none. -/
def componentOf? (t : DomainTable) (word : Nat) : Option Nat :=
  t.groups.findIdx? (·.contains word)

/-- Whether a link's words are still joined when the link is taken out. -/
def onCycle (t : DomainTable) (link : Nat) : Bool :=
  match t.diagram.arcs[link]? with
  | none => false
  | some a =>
    let others := t.diagram.arcs.eraseIdx link
    (Search.reached t.diagram.words (Diagram.neighboursBy others) a.left).contains a.right

/-- The same by a search that ends as soon as it comes to the link's right
word. -/
def hasDetour (t : DomainTable) (link : Nat) : Bool :=
  match t.diagram.arcs[link]? with
  | none => false
  | some a =>
    let others := t.diagram.arcs.eraseIdx link
    Search.comesTo t.diagram.words (Diagram.neighboursBy others) a.left a.right

/-! ## All look-ups at once -/

/-- Puts each value at the end of its row. There are `count` rows, and the
values come as pairs of a row and a value. -/
def fillRows (count : Nat) (entries : List (Nat × Nat)) : List (List Nat) :=
  entries.foldl (fun rows (row, value) => rows.modify row (· ++ [value])) (List.replicate count [])

/-- The look-ups of a table for every word and every link. -/
structure Rows where
  linksAt : List (List Nat)
  startedBy : List (Option Nat)
  domainsOf : List (List Nat)
deriving Repr, DecidableEq

/-- Goes through the arcs once and through the domains twice, where the
look-ups one by one go through them each time. -/
def rows (t : DomainTable) : Rows where
  linksAt := fillRows t.diagram.words
    (t.diagram.arcs.zipIdx.flatMap fun (a, i) => [(a.left, i), (a.right, i)])
  startedBy := t.domains.zipIdx.foldl (fun row (d, n) => row.set d.starter (some n))
    (List.replicate t.diagram.arcs.length none)
  domainsOf := fillRows t.diagram.arcs.length
    (t.domains.zipIdx.flatMap fun (d, n) => d.members.map (·, n))

/-- The numbers of the groups that the words belong to, found by searches that
share one row. -/
def components (t : DomainTable) : List (Option Nat) :=
  Search.numbers t.diagram.words t.diagram.neighbours

/-! ## Checked look-ups -/

/-- A look-up by link index, which must be one. -/
def atLink {α : Type} (t : DomainTable) (look : DomainTable → Nat → α) (link : Nat) :
    Except IndexFault α :=
  if link < t.diagram.arcs.length then .ok (look t link)
  else .error ⟨t.diagram.arcs.length, link⟩

/-- A look-up by word, which must be in the sentence. -/
def atWord {α : Type} (t : DomainTable) (look : DomainTable → Nat → α) (word : Nat) :
    Except IndexFault α :=
  if word < t.diagram.words then .ok (look t word) else .error ⟨t.diagram.words, word⟩

end DomainTable

end LinkParse
