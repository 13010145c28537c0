import LinkParse.Document.Decode
import LinkParse.Options

/-!
# Options in documents

Every field may be left out, and stands for its default then.
-/

namespace LinkParse

namespace SpanMeasure

def names : List (String × SpanMeasure) := [("sum", .sum), ("max", .max)]

def name : SpanMeasure → String
  | sum => "sum"
  | max => "max"

end SpanMeasure

namespace OverBudget

def names : List (String × OverBudget) :=
  [("keep", .keep), ("deprioritize", .deprioritize), ("discard", .discard)]

def name : OverBudget → String
  | keep => "keep"
  | deprioritize => "deprioritize"
  | discard => "discard"

end OverBudget

namespace Options

def layout : Document.Layout :=
  [("max_cost", .scalar .number true), ("disjunct_cost_weight", .number),
    ("null_word_penalty", .number), ("prefer_fewer_nulls", .truth),
    ("short_length_preference", .truth), ("span_measure", .name), ("link_span_weight", .number),
    ("over_budget", .name)]

def ofDocument (format : Format) (d : Document) : Except Document.Misfit Options := do
  let o : Options := {}
  let fields ← d.asRecord layout.names
  return {
    maxCost := ← fields.optional "max_cost" o.maxCost (Document.asOption Document.asNumber)
    disjunctCostWeight :=
      ← fields.optional "disjunct_cost_weight" o.disjunctCostWeight Document.asNumber
    nullWordPenalty := ← fields.optional "null_word_penalty" o.nullWordPenalty Document.asNumber
    preferFewerNulls := ← fields.optional "prefer_fewer_nulls" o.preferFewerNulls Document.asBool
    shortLengthPreference :=
      ← fields.optional "short_length_preference" o.shortLengthPreference Document.asBool
    spanMeasure :=
      ← fields.optional "span_measure" o.spanMeasure
        (Document.asName format.saysNothing SpanMeasure.names)
    linkSpanWeight := ← fields.optional "link_span_weight" o.linkSpanWeight Document.asNumber
    overBudget :=
      ← fields.optional "over_budget" o.overBudget
        (Document.asName format.saysNothing OverBudget.names) }

end Options

end LinkParse
