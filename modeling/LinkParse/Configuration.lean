import LinkParse.Document.Json
import LinkParse.Document.Toml
import LinkParse.Document.Yaml
import LinkParse.Options.Codec
import LinkParse.Rule.Codec

/-!
# Configuration

Options and rule sets from texts and files. A text is read as a document of
its format, the document is decoded, and what it holds is checked; each of
the three can fail.
-/

namespace LinkParse

/-- Why a configuration could not be loaded: no text, no document of the
format or not of the right form, or values that cannot be used. -/
inductive LoadError where
  | unreadable
  | notADocument (format : Format)
  | misfit (format : Format) (reason : Document.Misfit)
  | rules (fault : RuleSet.Fault)
  | options (fault : Options.Fault)
deriving Repr, DecidableEq

/-- The fault of values that cannot be used, in words. -/
def LoadError.invalid? : LoadError → Option String
  | .rules fault => some s!"Invalid configuration: {fault.message}"
  | .options fault => some s!"Invalid configuration: {fault.message}"
  | _ => none

/-- The document that a text of a format spells in the place of a record. -/
def Document.ofText? (layout : Document.Layout) : Format → String → Option Document
  | .toml, s => Document.ofToml? s
  | .yaml, s => Document.ofYaml? (.record layout) s
  | .json, s => Document.ofJson? s

namespace RuleSet

def checked (s : RuleSet) : Except LoadError RuleSet :=
  match s.fault? with
  | some fault => .error (.rules fault)
  | none => .ok s

def build (starters : List Starter) (rules : List Rule) : Except LoadError RuleSet :=
  checked ⟨starters, rules⟩

def load (format : Format) (d : Document) : Except LoadError RuleSet := do
  let s ← (RuleSet.ofDocument format d).mapError (.misfit format)
  s.checked

def loadText (format : Format) (text : String) : Except LoadError RuleSet :=
  match Document.ofText? layout format text with
  | some d => load format d
  | none => .error (.notADocument format)

end RuleSet

namespace Options

def checked (o : Options) : Except LoadError Options :=
  match o.fault? with
  | some fault => .error (.options fault)
  | none => .ok o

def load (format : Format) (d : Document) : Except LoadError Options := do
  let o ← (Options.ofDocument format d).mapError (.misfit format)
  o.checked

def loadText (format : Format) (text : String) : Except LoadError Options :=
  match Document.ofText? layout format text with
  | some d => load format d
  | none => .error (.notADocument format)

end Options

/-! ## Files -/

/-- What stands behind a path. -/
inductive File where
  | text (s : String)
  | bytes (bs : List UInt8)
  | directory
  | missing
deriving Repr, DecidableEq

/-- The text of a file, which has to be in UTF-8. -/
def File.read : File → Except LoadError String
  | .text s => .ok s
  | .bytes bs =>
    match String.fromUTF8? ⟨bs.toArray⟩ with
    | some s => .ok s
    | none => .error .unreadable
  | .directory | .missing => .error .unreadable

def RuleSet.loadFile (format : Format) (file : File) : Except LoadError RuleSet := do
  RuleSet.loadText format (← file.read)

def Options.loadFile (format : Format) (file : File) : Except LoadError Options := do
  Options.loadText format (← file.read)

end LinkParse
