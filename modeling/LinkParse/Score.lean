import LinkParse.Linkage
import LinkParse.Options

/-!
# Scores

The cost of a linkage is the weighted sum of its disjunct cost, the number
of its null words and, where short links are preferred, its span.
-/

namespace LinkParse

structure Score where
  cost : Cost
  overBudget : Bool
  nulls : Nat
  disjunct : Cost
  span : Nat
deriving Repr, DecidableEq

namespace Score

def text (s : Score) : String :=
  s!"cost={s.cost.text} nulls={s.nulls} disjunct={s.disjunct.text} span={s.span}" ++
    if s.overBudget then " (over budget)" else ""

/-- What keeps a linkage from being scored: options that cannot be used, or
terms without a sum. -/
inductive Fault where
  | options (fault : Options.Fault)
  | cost (fault : Cost.Fault)
deriving Repr, DecidableEq

def Fault.message : Fault → String
  | options fault =>
    s!"cannot score with invalid parse options: Invalid configuration: {fault.message}"
  | cost fault => fault.message

end Score

namespace Linkage

def span (k : Linkage) : SpanMeasure → Nat
  | .sum => k.totalSpan
  | .max => k.maxSpan

/-- The weighted sum, added from the left. -/
def weightedCost (k : Linkage) (o : Options) : Binary64 :=
  let structural :=
    if o.shortLengthPreference then o.linkSpanWeight * Binary64.ofNat (k.span o.spanMeasure)
    else .zero
  o.disjunctCostWeight * k.cost + o.nullWordPenalty * Binary64.ofNat k.nullCount + structural

def score (k : Linkage) (o : Options) : Except Score.Fault Score :=
  match o.fault? with
  | some fault => .error (.options fault)
  | none => do
    let cost ← (Cost.saturating (k.weightedCost o)).mapError .cost
    let budget ← o.budget.mapError .cost
    return {
      cost
      overBudget := budget.any cost.isWorseThan
      nulls := k.nullCount
      disjunct := Cost.ofFinite k.cost k.cost_finite
      span := k.span o.spanMeasure }

end Linkage

end LinkParse
