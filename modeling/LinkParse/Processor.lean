import LinkParse.Event
import LinkParse.Rule.Shown

/-!
# Processing candidate linkages

A processor takes candidate linkages of a sentence through label derivation,
analysis and scoring, and ranks the well-formed ones. The labels go into a
label table that the caller keeps, so processors can share one.
-/

namespace LinkParse

/-- Rules, options that can be scored with, and the label rule. -/
structure Processor where
  rules : RuleSet
  options : Options
  labelRule : LabelRule
  options_usable : options.fault? = none

/-- What became of one linkage: it has its labels now, and a score if it is
well formed. -/
structure Processed where
  index : Nat
  linkage : Linkage
  verdict : Verdict
  score : Option Score
deriving DecidableEq

/-- What became of a list of linkages, in list order, and the ranking of the
well-formed ones. -/
structure BatchReport where
  processed : List Processed
  ranked : List Candidate
deriving DecidableEq

namespace Processed

def candidate? (p : Processed) : Option Candidate := p.score.map (Candidate.mk p.index)

end Processed

namespace BatchReport

/-- The report on processed linkages whose candidates came in some order. -/
def ofArrivals (o : Options) (processed : List Processed) (arrivals : List Candidate) :
    BatchReport where
  processed := processed
  ranked := Candidate.rank o arrivals

def rankedLinkages (r : BatchReport) : List Processed :=
  r.ranked.filterMap fun c => r.processed[c.index]?

def best? (r : BatchReport) : Option Processed := r.rankedLinkages.head?

def wellFormedCount (r : BatchReport) : Nat := r.processed.countP (·.verdict.isWellFormed)

def rejected (r : BatchReport) : List Processed := r.processed.filter (!·.verdict.isWellFormed)

end BatchReport

namespace Processor

def make (rules : RuleSet) (options : Options) (labelRule : LabelRule) : Except Fault Processor :=
  match h : options.fault? with
  | some fault => .error (.processorOptions fault)
  | none => .ok ⟨rules, options, labelRule, h⟩

/-- Analysis of a labeled linkage, and its score if it is well formed. -/
def judge (p : Processor) (index : Nat) (linkage : Linkage) : Logged Processed := do
  let verdict ← linkage.analyzeLogged p.rules
  match verdict with
  | .wellFormed =>
    let score ← linkage.scoreLogged p.options
    return { index, linkage, verdict, score := some score }
  | .violated _ => return { index, linkage, verdict, score := none }

/-- Takes one linkage through all stages. The table is what label derivation
left, also behind a fault. -/
def process (p : Processor) (table : LabelTable) (index : Nat) (k : Linkage) :
    LabelTable × Logged Processed :=
  let labeling := k.deriveLabels p.labelRule table
  (labeling.table,
    match labeling.mismatch? with
    | some mismatch => .ofOutcome (.error (.mismatch mismatch))
    | none => p.judge index labeling.linkage)

/-- Takes linkages through all stages, numbered from `index` on. The first
fault ends the run. -/
def processAll (p : Processor) : LabelTable → Nat → List Linkage →
    LabelTable × Except Fault (List Processed)
  | table, _, [] => (table, .ok [])
  | table, index, k :: ks =>
    let (table, first) := p.process table index k
    match first.outcome with
    | .error fault => (table, .error fault)
    | .ok first =>
      let (table, rest) := processAll p table (index + 1) ks
      (table, rest.map (first :: ·))

/-- The report on a list of linkages. The single linkages report nothing;
the ranking and the whole batch do. -/
def processBatch (p : Processor) (table : LabelTable) (ks : List Linkage) :
    LabelTable × Logged BatchReport :=
  let (table, outcome) := p.processAll table 0 ks
  (table,
    match outcome with
    | .error fault => .ofOutcome (.error fault)
    | .ok processed =>
      let ranker : Ranker := ⟨processed.filterMap Processed.candidate?⟩
      let report := BatchReport.ofArrivals p.options processed ranker.candidates
      let bestCost := report.ranked.head?.map (·.score.cost)
      ⟨[.candidatesRanked ranker.size report.ranked.length bestCost,
          .batchProcessed processed.length report.ranked.length bestCost], .ok report⟩)

/-! ## Showing a processor -/

def boolText (b : Bool) : String := if b then "true" else "false"

def spanMeasureText : SpanMeasure → String
  | .sum => "Sum"
  | .max => "Max"

def overBudgetText : OverBudget → String
  | .keep => "Keep"
  | .deprioritize => "Deprioritize"
  | .discard => "Discard"

def optionsText (o : Options) : String :=
  Text.record "ParseOptions" [
    ("max_cost", Text.optional (o.maxCost.map Binary64.pointText)),
    ("disjunct_cost_weight", o.disjunctCostWeight.pointText),
    ("null_word_penalty", o.nullWordPenalty.pointText),
    ("prefer_fewer_nulls", boolText o.preferFewerNulls),
    ("short_length_preference", boolText o.shortLengthPreference),
    ("span_measure", spanMeasureText o.spanMeasure),
    ("link_span_weight", o.linkSpanWeight.pointText),
    ("over_budget", overBudgetText o.overBudget)]

/-- A processor beside the table that it labels into. The label rule is not
shown. -/
def debugText (p : Processor) (table : LabelTable) : String :=
  Text.partialRecord "PostProcessor" [("rules", p.rules.debugText),
    ("options", optionsText p.options), ("interned_labels", toString table.size)]

end Processor

end LinkParse
