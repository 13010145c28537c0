import LinkParse.Rule
import LinkParse.Text.Shown

/-!
# Rule sets shown with their structure

Every part of a rule set is shown, in the order in which it was given: the
starters and rules, the patterns that they list, and what each check holds.
-/

namespace LinkParse

open Text

def Pattern.debugText (p : Pattern) : String := record "LabelPattern" [("text", quoted p.text)]

def RuleRef.debugText (r : RuleRef) : String :=
  record "RuleRef" [("group", quoted r.group), ("name", quoted r.name)]

def Reach.debugText : Reach → String
  | .full => "Full"
  | .rightWordOnly => "RightWordOnly"

def Placement.debugText : Placement → String
  | .before => "Before"
  | .after => "After"

def Scope.debugText : Scope → String
  | .domain => "Domain"
  | .linkage => "Linkage"

def Requirement.debugText : Requirement → String
  | .require => "Require"
  | .forbid => "Forbid"

/-- A kind of domain is shown as such, not as a bare text. -/
def kindText (kind : String) : String := wrapped "DomainKind" (quoted kind)

def Starter.debugText (s : Starter) : String :=
  record "DomainStarter" [("pattern", s.pattern.debugText), ("domain", kindText s.domain),
    ("reach", s.reach.debugText)]

def Check.debugText : Check → String
  | .containment domain allow =>
    record "Containment" [("domain", kindText domain),
      ("allow", listed (allow.map Pattern.debugText))]
  | .bounded domain => record "Bounded" [("domain", kindText domain)]
  | .ordering selector anchor placement =>
    record "Ordering" [("selector", selector.debugText), ("anchor", anchor.debugText),
      ("order", placement.debugText)]
  | .companion selector companions scope requirement =>
    record "Companion" [("selector", selector.debugText),
      ("companions", listed (companions.map Pattern.debugText)), ("scope", scope.debugText),
      ("requirement", requirement.debugText)]
  | .cycle selector => record "Cycle" [("selector", selector.debugText)]
  | .connected => "Connected"
  | .minimumLinks count => record "MinimumLinks" [("count", toString count)]

def Rule.debugText (r : Rule) : String :=
  record "Rule" [("id", r.id.debugText), ("message", optional (r.message.map quoted)),
    ("check", r.check.debugText)]

def RuleSet.debugText (s : RuleSet) : String :=
  record "RuleSet" [("starters", listed (s.starters.map Starter.debugText)),
    ("rules", listed (s.rules.map Rule.debugText))]

end LinkParse
