import LinkParse.Domain

/-!
# Analysis

A diagram is checked against a rule set. Rules about the number of links
come first; then the links are visited in canonical order, and at each link
the rules in the order of the set. The first objection decides, so a
diagram and a rule set have one verdict.

An objection holds what it is about, by link indices and domains; its
wording is `Objection.detail`.
-/

namespace LinkParse

/-- Why a link, or the whole linkage, does not pass a check. -/
inductive Objection where
  | tooFewLinks (links required : Nat)
  | crossing (inner outer : Domain)
  | leavesDomain (link : Nat) (domain : Domain)
  | misplaced (link : Nat) (placement : Placement) (anchor : Nat)
  | companion (link : Nat) (requirement : Requirement) (place : Option Domain)
  | noCycle (link : Nat)
  | disconnected (link : Nat)
deriving Repr, DecidableEq

namespace Objection

def placementWord : Placement → String
  | .before => "before"
  | .after => "after"

def requirementWords : Requirement → String
  | .require => "lacks a required companion"
  | .forbid => "has a forbidden companion"

/-- A domain in words: its kind and the link that opens it. -/
def domainText (d : Diagram) (domain : Domain) : String :=
  s!"{domain.kind} domain opened by {d.describe domain.starter}"

def detail (d : Diagram) : Objection → String
  | tooFewLinks links required => s!"{links} links, at least {required} required"
  | crossing inner outer => s!"{domainText d inner} crosses {domainText d outer}"
  | leavesDomain link domain =>
    s!"{d.describe link} leaves the {domain.kind} domain starting at word {domain.start}"
  | misplaced link placement anchor =>
    s!"{d.describe link} must come {placementWord placement} {d.describe anchor}"
  | companion link requirement none =>
    s!"{d.describe link} {requirementWords requirement} in the linkage"
  | companion link requirement (some domain) =>
    s!"{d.describe link} {requirementWords requirement} in the {domainText d domain}"
  | noCycle link => s!"{d.describe link} is not part of a cycle"
  | disconnected link => s!"{d.describe link} is disconnected from the first link"

end Objection

/-- A rule that does not hold, the link that is to blame, if it is one, and
the reason in words. -/
structure Violation where
  rule : RuleRef
  link : Option Nat
  reason : String
deriving Repr, DecidableEq

def Violation.text (v : Violation) : String :=
  match v.link with
  | some link => s!"{v.rule.text} at link {link}: {v.reason}"
  | none => s!"{v.rule.text}: {v.reason}"

inductive Verdict where
  | wellFormed
  | violated (violation : Violation)
deriving Repr, DecidableEq

namespace Verdict

def isWellFormed : Verdict → Bool
  | wellFormed => true
  | violated _ => false

def violation? : Verdict → Option Violation
  | wellFormed => none
  | violated v => some v

end Verdict

namespace DomainTable

/-! ## Checks at one link -/

/-- Whether a containment check forbids two domains to cross: one of them
is of the kind and the other's opening label is not allowed. -/
def forbidsCrossing (d : Diagram) (kind : String) (allow : List Pattern) (a b : Domain) : Bool :=
  (a.kind == kind && !Pattern.acceptsAny allow (d.label b.starter)) ||
    (b.kind == kind && !Pattern.acceptsAny allow (d.label a.starter))

/-- The first earlier domain that the domain opened by a link crosses
against a containment check. -/
def crossing? (t : DomainTable) (kind : String) (allow : List Pattern) (link : Nat) :
    Option Objection :=
  match t.startedBy? link with
  | none => none
  | some number =>
    match t.domains[number]? with
    | none => none
    | some inner =>
      ((t.domains.take number).find? fun outer =>
        outer.crosses inner && forbidsCrossing t.diagram kind allow outer inner).map fun outer =>
          .crossing inner outer

/-- The first domain of a kind that a member leaves to the left. -/
def leavesDomain? (t : DomainTable) (kind : String) (a : Arc) (link : Nat) : Option Objection :=
  ((t.domainsAround link).find? fun domain => domain.kind == kind && a.left < domain.start).map
    (.leavesDomain link)

def placedRightly (placement : Placement) (a anchor : Arc) : Bool :=
  match placement with
  | .before => a.precedes anchor
  | .after => anchor.precedes a

/-- The first member of one of the link's domains on whose wrong side the
link stands. -/
def misplaced? (t : DomainTable) (anchor : Pattern) (placement : Placement) (a : Arc) (link : Nat) :
    Option Objection :=
  (t.domainsAround link).findSome? fun domain =>
    (domain.members.find? fun member =>
      match t.diagram.arcs[member]? with
      | none => false
      | some b => member != link && anchor.accepts b.label && !placedRightly placement a b).map
        (.misplaced link placement)

/-- Whether a companion of a link is among links. -/
def hasCompanion (d : Diagram) (companions : List Pattern) (link : Nat) (among : List Nat) : Bool :=
  among.any fun member => member != link && Pattern.acceptsAny companions (d.label member)

/-- Whether a requirement is not met when companions are there or not. -/
def unmet (requirement : Requirement) (found : Bool) : Bool :=
  match requirement with
  | .require => !found
  | .forbid => found

def companion? (t : DomainTable) (companions : List Pattern) (scope : Scope)
    (requirement : Requirement) (link : Nat) : Option Objection :=
  match scope with
  | .linkage =>
    if unmet requirement
        (hasCompanion t.diagram companions link (List.range t.diagram.arcs.length)) then
      some (.companion link requirement none)
    else none
  | .domain =>
    ((t.domainsAround link).find? fun domain =>
      unmet requirement (hasCompanion t.diagram companions link domain.members)).map
        fun domain => .companion link requirement (some domain)

def firstComponent? (t : DomainTable) : Option Nat :=
  t.diagram.canonical.head?.bind fun (a, _) => t.componentOf? a.left

def objection? (t : DomainTable) (check : Check) (a : Arc) (link : Nat) : Option Objection :=
  match check with
  | .containment kind allow => t.crossing? kind allow link
  | .bounded kind => t.leavesDomain? kind a link
  | .ordering selector anchor placement =>
    if selector.accepts a.label then t.misplaced? anchor placement a link else none
  | .companion selector companions scope requirement =>
    if selector.accepts a.label then t.companion? companions scope requirement link else none
  | .cycle selector =>
    if selector.accepts a.label && !t.onCycle link then some (.noCycle link) else none
  | .connected =>
    if t.componentOf? a.left != t.firstComponent? then some (.disconnected link) else none
  | .minimumLinks _ => none

end DomainTable

namespace Rule

/-- The violation of a rule, whose message stands before the detail. -/
def violation (rule : Rule) (d : Diagram) (link : Option Nat) (objection : Objection) :
    Violation where
  rule := rule.id
  link := link
  reason :=
    match rule.message with
    | some message => s!"{message}: {objection.detail d}"
    | none => objection.detail d

/-- What a rule about the number of links has to object. -/
def shortfall? (rule : Rule) (d : Diagram) : Option Violation :=
  match rule.check with
  | .minimumLinks count =>
    if d.arcs.length < count then
      some (rule.violation d none (.tooFewLinks d.arcs.length count))
    else none
  | _ => none

def violationAt? (rule : Rule) (t : DomainTable) (a : Arc) (link : Nat) : Option Violation :=
  (t.objection? rule.check a link).map (rule.violation t.diagram (some link))

end Rule

def Diagram.analyze (d : Diagram) (rules : RuleSet) : Verdict :=
  match rules.rules.findSome? (·.shortfall? d) with
  | some violation => .violated violation
  | none =>
    let t := DomainTable.ofDiagram rules d
    match d.canonical.findSome? fun (a, link) =>
        rules.rules.findSome? (·.violationAt? t a link) with
    | some violation => .violated violation
    | none => .wellFormed

/-! ## Linkages -/

/-- The first link in canonical order that has no label. -/
def Linkage.firstUnlabeled? (k : Linkage) : Option Nat :=
  (k.canonical.find? fun (l, _) => l.label.isNone).map (·.2)

end LinkParse
