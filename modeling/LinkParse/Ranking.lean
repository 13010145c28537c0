import LinkParse.Score
import LinkParse.Sorting

/-!
# Ranking

Scored linkages are ordered best first. The order looks at every field of a
candidate in the end, so it is total and a ranking depends on the
candidates alone, never on the order in which they came.
-/

namespace LinkParse

/-- A score under the number of the linkage that it belongs to. -/
structure Candidate where
  index : Nat
  score : Score
deriving Repr, DecidableEq

namespace Candidate

def preferring (preference : Bool) (order : Ordering) : Ordering :=
  if preference then order else .eq

/-- The order of candidates: over the budget last, if that is the policy;
lower cost; fewer null words, if preferred; lower disjunct cost; shorter
span, if preferred; lower index. The last three comparisons settle what
repeated indices leave open. -/
def order (o : Options) (a b : Candidate) : Ordering :=
  let x := a.score
  let y := b.score
  (preferring (o.overBudget == .deprioritize) (compare x.overBudget y.overBudget)).then <|
  (Cost.order x.cost y.cost).then <|
  (preferring o.preferFewerNulls (compare x.nulls y.nulls)).then <|
  (Cost.order x.disjunct y.disjunct).then <|
  (preferring o.shortLengthPreference (compare x.span y.span)).then <|
  (compare a.index b.index).then <|
  (compare x.nulls y.nulls).then <|
  (compare x.span y.span).then <|
  compare x.overBudget y.overBudget

/-- The candidates best first, without those over the budget where these
are discarded. -/
def rank (o : Options) (cs : List Candidate) : List Candidate :=
  Sorting.sort (fun a b => (order o a b).isLE)
    (if o.overBudget = .discard then cs.filter (!·.score.overBudget) else cs)

end Candidate

/-- Collects candidates, which can be ranked at any time and by any
options. -/
structure Ranker where
  candidates : List Candidate := []
deriving Repr, DecidableEq

namespace Ranker

def submit (r : Ranker) (c : Candidate) : Ranker := ⟨r.candidates ++ [c]⟩

def size (r : Ranker) : Nat := r.candidates.length

def ranked (r : Ranker) (o : Options) : List Candidate := Candidate.rank o r.candidates

/-- The ranking that is left when the ranker itself is given up. -/
def intoRanked (r : Ranker) (o : Options) : List Candidate := Candidate.rank o r.candidates

def best? (r : Ranker) (o : Options) : Option Candidate := (r.ranked o).head?

end Ranker

end LinkParse
