import LinkParse.Cost

/-!
# Options

The weights and preferences by which linkages are scored and ranked. They
can be set to any value; `fault?` says what is wrong with values that
cannot be scored with.
-/

namespace LinkParse

/-- How the spans of the links make up the span of a linkage. -/
inductive SpanMeasure where
  | sum
  | max
deriving Repr, DecidableEq

/-- What becomes of candidates over the budget: they are ranked like all
others, ranked behind them, or left out. -/
inductive OverBudget where
  | keep
  | deprioritize
  | discard
deriving Repr, DecidableEq

structure Options where
  maxCost : Option Binary64 := none
  disjunctCostWeight : Binary64 := .one
  nullWordPenalty : Binary64 := .one
  preferFewerNulls : Bool := false
  shortLengthPreference : Bool := false
  spanMeasure : SpanMeasure := .sum
  linkSpanWeight : Binary64 := .one
  overBudget : OverBudget := .deprioritize
deriving Repr, DecidableEq

namespace Options

inductive Fault where
  | weight (field : String) (value : Binary64)
  | maxCostNotANumber
deriving Repr, DecidableEq

def Fault.message : Fault → String
  | weight field value => s!"{field} must be a finite non-negative number, got {value.text}"
  | maxCostNotANumber => "max_cost must not be NaN"

/-- Weights are finite and not below zero. -/
def isWeight (x : Binary64) : Bool := x.isFinite && !x.isBelowZero

def weights (o : Options) : List (String × Binary64) :=
  [("disjunct_cost_weight", o.disjunctCostWeight), ("null_word_penalty", o.nullWordPenalty),
    ("link_span_weight", o.linkSpanWeight)]

/-- The first weight that is none, and then a budget that is no number. -/
def fault? (o : Options) : Option Fault :=
  match o.weights.find? fun (_, value) => !isWeight value with
  | some (field, value) => some (.weight field value)
  | none => if o.maxCost = some .nan then some .maxCostNotANumber else none

/-- The budget as a cost, kept within the range of costs. -/
def budget (o : Options) : Except Cost.Fault (Option Cost) :=
  match o.maxCost with
  | none => .ok none
  | some x => (Cost.saturating x).map some

/-- Equality of options, with numbers compared as numbers. -/
def same (o p : Options) : Bool :=
  (match o.maxCost, p.maxCost with
    | none, none => true
    | some x, some y => x.sameNumber y
    | _, _ => false) &&
  o.disjunctCostWeight.sameNumber p.disjunctCostWeight &&
  o.nullWordPenalty.sameNumber p.nullWordPenalty &&
  o.linkSpanWeight.sameNumber p.linkSpanWeight &&
  o.preferFewerNulls == p.preferFewerNulls &&
  o.shortLengthPreference == p.shortLengthPreference &&
  o.spanMeasure == p.spanMeasure && o.overBudget == p.overBudget

end Options

end LinkParse
