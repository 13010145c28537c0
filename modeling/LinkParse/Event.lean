import LinkParse.Fault
import LinkParse.Ranking

/-!
# Events

What an operation reports about its course beside its answer. An operation
that reports is a `Logged` value: the events in their order, and the answer
or the fault that ended it.
-/

namespace LinkParse

inductive Event where
  | linkageWellFormed (links domains : Nat)
  | linkageViolated (violation : Violation)
  | linkageScored (score : Score)
  | candidatesRanked (submitted kept : Nat) (bestCost : Option Cost)
  | batchProcessed (linkages wellFormed : Nat) (bestCost : Option Cost)
deriving Repr, DecidableEq

namespace Event

def name : Event → String
  | linkageWellFormed _ _ => "linkage_well_formed"
  | linkageViolated _ => "linkage_violated"
  | linkageScored _ => "linkage_scored"
  | candidatesRanked _ _ _ => "candidates_ranked"
  | batchProcessed _ _ _ => "batch_processed"

/-- The fields of an event, beginning with its name. -/
def fields (e : Event) : List (String × String) :=
  ("event", e.name) ::
    match e with
    | linkageWellFormed links domains => [("links", toString links), ("domains", toString domains)]
    | linkageViolated v =>
      [("rule", v.rule.text), ("link", Text.optional (v.link.map toString)), ("reason", v.reason)]
    | linkageScored score => [("score", score.text)]
    | candidatesRanked submitted kept bestCost =>
      [("submitted", toString submitted), ("kept", toString kept),
        ("best_cost", Text.optional (bestCost.map Cost.debugText))]
    | batchProcessed linkages wellFormed bestCost =>
      [("linkages", toString linkages), ("well_formed", toString wellFormed),
        ("best_cost", Text.optional (bestCost.map fun c => c.value.pointText))]

end Event

structure Logged (α : Type) where
  events : List Event
  outcome : Except Fault α

namespace Logged

protected def pure {α : Type} (a : α) : Logged α := ⟨[], .ok a⟩

/-- The second operation runs, and reports, only behind a first one that
has an answer. -/
protected def bind {α β : Type} (x : Logged α) (f : α → Logged β) : Logged β :=
  match x.outcome with
  | .ok a =>
    let y := f a
    ⟨x.events ++ y.events, y.outcome⟩
  | .error e => ⟨x.events, .error e⟩

instance : Monad Logged where
  pure := Logged.pure
  bind := Logged.bind

/-- An operation without events. -/
def ofOutcome {α : Type} (outcome : Except Fault α) : Logged α := ⟨[], outcome⟩

/-- An operation that reports its answer. -/
def reporting {α : Type} (outcome : Except Fault α) (event : α → Event) : Logged α :=
  match outcome with
  | .ok a => ⟨[event a], .ok a⟩
  | .error e => ⟨[], .error e⟩

end Logged

/-! ## Operations that report -/

def Verdict.event (d : Diagram) (rules : RuleSet) : Verdict → Event
  | .wellFormed =>
    .linkageWellFormed d.arcs.length (DomainTable.ofDiagram rules d).domains.length
  | .violated v => .linkageViolated v

def Linkage.analyzeLogged (k : Linkage) (rules : RuleSet) : Logged Verdict :=
  match k.diagram? with
  | some d => Logged.reporting (k.analyze rules) (Verdict.event d rules)
  | none => Logged.ofOutcome (k.analyze rules)

def Linkage.scoreLogged (k : Linkage) (o : Options) : Logged Score :=
  Logged.reporting ((k.score o).mapError .score) .linkageScored

/-- `Ranker.ranked`, reporting how many candidates there were and are. -/
def Ranker.rankedLogged (r : Ranker) (o : Options) : Logged (List Candidate) :=
  let ranked := r.ranked o
  ⟨[.candidatesRanked r.size ranked.length (ranked.head?.map (·.score.cost))], .ok ranked⟩

end LinkParse
