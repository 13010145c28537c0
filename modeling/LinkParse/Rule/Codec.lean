import LinkParse.Document.Decode
import LinkParse.Rule

/-!
# Rule sets in documents

A rule set is written as a record of its two tables. Rules are named by the
texts of their references, patterns stand as texts, and a check is a tagged
record. What is written can be read as a document of every format.
-/

namespace LinkParse

namespace Reach

def names : List (String × Reach) := [("full", .full), ("right_word_only", .rightWordOnly)]

def name : Reach → String
  | full => "full"
  | rightWordOnly => "right_word_only"

end Reach

namespace Placement

def names : List (String × Placement) := [("before", .before), ("after", .after)]

def name : Placement → String
  | before => "before"
  | after => "after"

end Placement

namespace Scope

def names : List (String × Scope) := [("domain", .domain), ("linkage", .linkage)]

def name : Scope → String
  | domain => "domain"
  | linkage => "linkage"

end Scope

namespace Requirement

def names : List (String × Requirement) := [("require", .require), ("forbid", .forbid)]

def name : Requirement → String
  | require => "require"
  | forbid => "forbid"

end Requirement

/-! ## Writing -/

namespace Document

def ofPattern (p : Pattern) : Document := .text p.text

def ofPatterns (ps : List Pattern) : Document := .list (ps.map ofPattern)

end Document

def Starter.toDocument (s : Starter) : Document :=
  .ofFields [("pattern", .ofPattern s.pattern), ("domain", .text s.domain),
    ("reach", .text s.reach.name)]

def Check.tag : Check → String
  | .containment _ _ => "containment"
  | .bounded _ => "bounded"
  | .ordering _ _ _ => "ordering"
  | .companion _ _ _ _ => "companion"
  | .cycle _ => "cycle"
  | .connected => "connected"
  | .minimumLinks _ => "minimum_links"

def Check.fields : Check → List (String × Document)
  | .containment domain allow => [("domain", .text domain), ("allow", .ofPatterns allow)]
  | .bounded domain => [("domain", .text domain)]
  | .ordering selector anchor placement =>
    [("selector", .ofPattern selector), ("anchor", .ofPattern anchor),
      ("order", .text placement.name)]
  | .companion selector companions scope requirement =>
    [("selector", .ofPattern selector), ("companions", .ofPatterns companions),
      ("scope", .text scope.name), ("requirement", .text requirement.name)]
  | .cycle selector => [("selector", .ofPattern selector)]
  | .connected => []
  | .minimumLinks count => [("count", .int count)]

def Check.toDocument (c : Check) : Document := .ofFields (("type", .text c.tag) :: c.fields)

def Rule.toDocument (r : Rule) : Document :=
  .ofFields [("id", .text r.id.text), ("message", (r.message.map Document.text).getD .null),
    ("check", r.check.toDocument)]

def RuleSet.toDocument (s : RuleSet) : Document :=
  .ofFields [("starters", .list (s.starters.map Starter.toDocument)),
    ("rules", .list (s.rules.map Rule.toDocument))]

/-! ## Forms -/

def Starter.layout : Document.Layout :=
  [("pattern", .text), ("domain", .text), ("reach", .name)]

def Rule.layout : Document.Layout :=
  [("id", .text), ("message", .scalar .text true), ("check", .tagged)]

def RuleSet.layout : Document.Layout :=
  [("starters", .list (.record Starter.layout)), ("rules", .list (.record Rule.layout))]

/-! ## Reading -/

def Starter.ofDocument (format : Format) (d : Document) : Except Document.Misfit Starter := do
  let fields ← d.asRecord Starter.layout.names
  return {
    pattern := ← fields.required "pattern" Document.asPattern
    domain := ← fields.required "domain" Document.asText
    reach := ← fields.optional "reach" .full (Document.asName format.saysNothing Reach.names) }

/-- A check of a tag from the rest of its record. -/
def Check.ofTagged (tag : String) (rest : Document) : Except Document.Misfit Check := do
  let text := Document.asText
  let pattern := Document.asPattern
  let patterns := Document.asList Document.asPattern
  let name {α : Type} (names : List (String × α)) := Document.asName Document.saysNothing names
  match tag with
  | "containment" =>
    let fields ← rest.asRecord ["domain", "allow"]
    return .containment (← fields.required "domain" text) (← fields.optional "allow" [] patterns)
  | "bounded" =>
    let fields ← rest.asRecord ["domain"]
    return .bounded (← fields.required "domain" text)
  | "ordering" =>
    let fields ← rest.asRecord ["selector", "anchor", "order"]
    return .ordering (← fields.required "selector" pattern) (← fields.required "anchor" pattern)
      (← fields.required "order" (name Placement.names))
  | "companion" =>
    let fields ← rest.asRecord ["selector", "companions", "scope", "requirement"]
    return .companion (← fields.required "selector" pattern)
      (← fields.required "companions" patterns)
      (← fields.optional "scope" .domain (name Scope.names))
      (← fields.optional "requirement" .require (name Requirement.names))
  | "cycle" =>
    let fields ← rest.asRecord ["selector"]
    return .cycle (← fields.required "selector" pattern)
  | "connected" =>
    match rest with
    | .list (_ :: _) => .error .surplus
    | _ => return .connected
  | "minimum_links" =>
    let fields ← rest.asRecord ["count"]
    return .minimumLinks (← fields.required "count" Document.asNatural)
  | _ => .error (.unknownName tag)

def Check.ofDocument (d : Document) : Except Document.Misfit Check := do
  let (tag, rest) ← d.asTagged
  Check.ofTagged tag rest

def RuleRef.ofDocument (d : Document) : Except Document.Misfit RuleRef := do
  (RuleRef.parse (← d.asText)).mapError .ruleRef

def Rule.ofDocument (d : Document) : Except Document.Misfit Rule := do
  let fields ← d.asRecord Rule.layout.names
  return {
    id := ← fields.required "id" RuleRef.ofDocument
    message := ← fields.optional "message" none (Document.asOption Document.asText)
    check := ← fields.required "check" Check.ofDocument }

/-- A rule set as it stands in a document, valid or not. -/
def RuleSet.ofDocument (format : Format) (d : Document) : Except Document.Misfit RuleSet := do
  let fields ← d.asRecord RuleSet.layout.names
  return {
    starters := ← fields.optional "starters" [] (Document.asList (Starter.ofDocument format))
    rules := ← fields.optional "rules" [] (Document.asList Rule.ofDocument) }

end LinkParse
