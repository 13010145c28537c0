import LinkParse.Document.Form
import LinkParse.Pattern
import LinkParse.RuleRef

/-!
# Reading values from documents

The readers of scalars, lists, names and records that the readers of options
and rule sets are made of.

A record is a map with known fields, or a list that gives the fields by
position. Entries of a map with other keys are ignored, a known field may
occur once. A name may stand as the only key of a map with nothing to say
behind it; what says nothing depends on the format.
-/

namespace LinkParse

inductive Format where
  | toml
  | yaml
  | json
deriving Repr, DecidableEq

/-- Whether a value behind a name says nothing. Where names are read from
YAML they stand as texts. -/
def Format.saysNothing : Format → Document → Bool
  | .toml, .map [] | .toml, .list [] | .json, .null => true
  | _, _ => false

namespace Document

/-- Whether a value behind a name says nothing within a tagged record, whatever
the format. -/
def saysNothing : Document → Bool
  | .null | .map [] => true
  | _ => false

inductive Misfit where
  | expected (what : String)
  | missing (field : String)
  | repeated (field : String)
  | surplus
  | unknownName (name : String)
  | pattern (malformed : Pattern.Malformed)
  | ruleRef (malformed : RuleRef.Malformed)
deriving Repr, DecidableEq

/-- The field that a key names among the known ones. -/
def Key.field? (names : List String) : Key → Except Misfit (Option String)
  | .text s => .ok (if names.contains s then some s else none)
  | .position n => .ok names[n]?
  | .other => .error (.expected "field name")

/-! ## Scalars and lists -/

def asText : Document → Except Misfit String
  | .text s => .ok s
  | _ => .error (.expected "text")

def asBool : Document → Except Misfit Bool
  | .bool b => .ok b
  | _ => .error (.expected "truth value")

/-- A floating number; a whole number counts as one. -/
def asNumber : Document → Except Misfit Binary64
  | .int i => .ok (.ofInt i)
  | .float x => .ok x
  | _ => .error (.expected "number")

def asNatural : Document → Except Misfit Nat
  | .int i => if fitsUnsigned 64 i then .ok i.toNat else .error (.expected "natural number")
  | _ => .error (.expected "natural number")

def asOption {α : Type} (read : Document → Except Misfit α) : Document → Except Misfit (Option α)
  | .null => .ok none
  | d => (read d).map some

def asList {α : Type} (read : Document → Except Misfit α) : Document → Except Misfit (List α)
  | .list items => items.mapM read
  | _ => .error (.expected "list")

/-- A pattern, with blank ends allowed. -/
def asPattern (d : Document) : Except Misfit Pattern := do
  (Pattern.parse (← d.asText)).mapError .pattern

/-- One of a list of names. -/
def asName {α : Type} (saysNothing : Document → Bool) (names : List (String × α)) (d : Document) :
    Except Misfit α := do
  let name ←
    match d with
    | .map [(key, value)] =>
      match ← key.field? (names.map (·.1)) with
      | some name => if saysNothing value then .ok name else .error (.expected "name")
      | none => .error (.expected "name")
    | d => d.asText
  match names.lookup name with
  | some value => .ok value
  | none => .error (.unknownName name)

/-! ## Records -/

/-- The fields of a record that are there, each once. -/
abbrev Fields := List (String × Document)

namespace Fields

/-- Adds a field that is not there yet. -/
def add (fields : Fields) (name : String) (value : Document) : Except Misfit Fields :=
  if (fields.lookup name).isSome then .error (.repeated name) else .ok ((name, value) :: fields)

def required {α : Type} (fields : Fields) (name : String) (read : Document → Except Misfit α) :
    Except Misfit α :=
  match fields.lookup name with
  | some d => read d
  | none => .error (.missing name)

/-- A field that stands for `default` if it is not there. -/
def optional {α : Type} (fields : Fields) (name : String) (default : α)
    (read : Document → Except Misfit α) : Except Misfit α :=
  match fields.lookup name with
  | some d => read d
  | none => .ok default

end Fields

/-- The known fields among entries. -/
def fieldsOf (names : List String) (entries : List (Key × Document)) : Except Misfit Fields :=
  entries.foldlM (fun fields (key, value) => do
    match ← key.field? names with
    | some name => fields.add name value
    | none => .ok fields) []

/-- A list in the place of a record with the given fields. -/
def fieldsByPosition (names : List String) (items : List Document) : Except Misfit Fields :=
  if names.length < items.length then .error .surplus else .ok (names.zip items)

/-- The fields of a record of the given names. -/
def asRecord (names : List String) : Document → Except Misfit Fields
  | .map entries => fieldsOf names entries
  | .list items => fieldsByPosition names items
  | _ => .error (.expected "record")

/-- A record whose field `type` says which fields the others are: the tag and
the rest without it. In a list the tag comes first. -/
def asTagged : Document → Except Misfit (String × Document)
  | .map entries =>
    match entries.filter (·.1 == .text "type") with
    | [(_, tag)] => do return (← tag.asText, .map (entries.filter (·.1 != .text "type")))
    | [] => .error (.missing "type")
    | _ => .error (.repeated "type")
  | .list (tag :: items) => do return (← tag.asText, .list items)
  | _ => .error (.expected "tagged record")

end Document

end LinkParse
