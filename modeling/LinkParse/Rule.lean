import LinkParse.Pattern
import LinkParse.RuleRef

/-!
# Rules

A rule set holds two tables. Its *starters* say which labels open a domain,
of which kind and how far it reaches; its *rules* are the checks that a
linkage has to pass, each under a name of its own. Both tables are read in
the order in which they were given: the first starter that accepts a label
decides, and of several failures the one of the earlier rule is reported.
-/

namespace LinkParse

/-- How far a domain reaches from its starter's right word. -/
inductive Reach where
  | full
  | rightWordOnly
deriving Repr, DecidableEq

/-- A pattern whose labels open a domain of a kind. -/
structure Starter where
  pattern : Pattern
  domain : String
  reach : Reach := .full
deriving DecidableEq

inductive Placement where
  | before
  | after
deriving Repr, DecidableEq

inductive Scope where
  | domain
  | linkage
deriving Repr, DecidableEq

inductive Requirement where
  | require
  | forbid
deriving Repr, DecidableEq

/-- What a rule demands.

* `containment`: no domain of the kind crosses another domain, unless the
  other one's starter has an allowed label.
* `bounded`: no member of a domain of the kind begins before the domain.
* `ordering`: within a domain, a selected link stands before or after every
  other link that the anchor accepts.
* `companion`: a selected link has, or has not, another link of the
  companions' labels in its domains or in the linkage.
* `cycle`: a selected link is part of a cycle.
* `connected`: all links are joined with each other.
* `minimumLinks`: there are enough links. -/
inductive Check where
  | containment (domain : String) (allow : List Pattern)
  | bounded (domain : String)
  | ordering (selector anchor : Pattern) (placement : Placement)
  | companion (selector : Pattern) (companions : List Pattern) (scope : Scope)
      (requirement : Requirement)
  | cycle (selector : Pattern)
  | connected
  | minimumLinks (count : Nat)
deriving DecidableEq

/-- The kind of domain that a check is about. -/
def Check.domain? : Check → Option String
  | .containment domain _ | .bounded domain => some domain
  | _ => none

/-- The companions of a companion check that lists none. -/
def Check.lacksCompanions : Check → Bool
  | .companion _ companions _ _ => companions.isEmpty
  | _ => false

structure Rule where
  id : RuleRef
  message : Option String := none
  check : Check
deriving DecidableEq

structure RuleSet where
  starters : List Starter
  rules : List Rule
deriving DecidableEq

namespace RuleSet

def empty : RuleSet := ⟨[], []⟩

def isEmpty (s : RuleSet) : Bool := s.starters.isEmpty && s.rules.isEmpty

/-- The starter that decides about a label: the first that accepts it. -/
def starterFor? (s : RuleSet) (label : String) : Option Starter :=
  s.starters.find? (·.pattern.accepts label)

def rule? (s : RuleSet) (id : RuleRef) : Option Rule := s.rules.find? (·.id == id)

/-! ## Validity -/

inductive Fault where
  | duplicateId (id : RuleRef)
  | unopenedDomain (id : RuleRef) (domain : String)
  | noCompanions (id : RuleRef)
deriving Repr, DecidableEq

def Fault.message : Fault → String
  | duplicateId id => s!"duplicate rule id '{id.text}'"
  | unopenedDomain id domain =>
    s!"rule '{id.text}' refers to domain '{domain}' which no starter opens"
  | noCompanions id => s!"companion rule '{id.text}' lists no companions"

/-- The fault of one rule behind the names of earlier ones. A repeated name
is reported first, then a domain that no starter opens. -/
def ruleFault? (starters : List Starter) (earlier : List RuleRef) (rule : Rule) : Option Fault :=
  if rule.id ∈ earlier then some (.duplicateId rule.id)
  else
    match rule.check.domain?.filter (fun kind => !starters.any (·.domain == kind)) with
    | some kind => some (.unopenedDomain rule.id kind)
    | none => if rule.check.lacksCompanions then some (.noCompanions rule.id) else none

def firstFault? (starters : List Starter) : List RuleRef → List Rule → Option Fault
  | _, [] => none
  | earlier, rule :: rules =>
    match ruleFault? starters earlier rule with
    | some fault => some fault
    | none => firstFault? starters (rule.id :: earlier) rules

def fault? (s : RuleSet) : Option Fault := firstFault? s.starters [] s.rules

end RuleSet

end LinkParse
