import LinkParse.Document.Form
import LinkParse.Document.Yaml.Node
import LinkParse.Document.Yaml.Plain

/-!
# YAML

The reader of YAML texts. A text is taken apart into tokens, the tokens make
a tree of nodes, and the nodes are read as the values that a form expects.

What no form asks for is not looked into: the values of unknown fields may
hold anything, as far as they are well-formed nodes. What is looked into may
be nested 128 times, and aliases may be followed a hundred times for each
part of the text, so that no short text stands for an immense document.
-/

namespace LinkParse

namespace Document

namespace Yaml

namespace Scalar

def ownName? (s : Scalar) : Option String := s.tag.bind Tag.ownName?

/-- Whether nothing is written, which stands for an empty collection too. -/
def isVoid (s : Scalar) : Bool := s.style == .plain && s.text.isEmpty

/-- Whether the scalar may be read as the core type of a name: if it is plain,
or a literal block that is tagged as being of the type. -/
def mayBe (s : Scalar) (name : String) : Bool :=
  s.style == .plain || (s.style == .literal && s.tag == some (Tag.core name))

/-- Whether the scalar is null in a place that may be. One with the tag of
nulls has to be written as one. -/
def isNull? (s : Scalar) : Option Bool :=
  if s.style != .plain then some false
  else
    match s.tag with
    | none => some (s.text.isEmpty || Plain.isNull s.text)
    | some tag =>
      if tag != Tag.core "null" then some false
      else if Plain.isNull s.text then some true
      else none

/-- The value as it is expected. A name that stands as a tag has nothing
behind it. -/
def as? (s : Scalar) : ScalarForm → Option Document
  | .text => some (.text s.text)
  | .number => if s.mayBe "float" then (Plain.float? s.text).map .float else none
  | .truth => if s.mayBe "bool" then (Plain.bool? s.text).map .bool else none
  | .name =>
    match s.ownName? with
    | some name =>
      if s.style == .plain && (s.text.isEmpty || Plain.isNull s.text) then some (.text name)
      else none
    | none => some (.text s.text)

/-- The value as it is expected, or null. -/
def optional? (s : Scalar) (expected : ScalarForm) : Option Document := do
  if ← s.isNull? then return .null else s.as? expected

/-- A whole number of up to 64 bits. -/
def asWhole? (s : Scalar) : Option Document :=
  ((Plain.int? s.text).filter fun i => fitsSigned 64 i || fitsUnsigned 64 i).map .int

/-- The value where nothing is expected: that of the core type in the tag,
that of a plain scalar without a tag, or else the text. A scalar with a tag of
one's own has none. -/
def value? (s : Scalar) : Option Document :=
  if s.ownName?.isSome then none
  else
    match s.tag with
    | none => if s.style == .plain then Plain.value? s.text else some (.text s.text)
    | some tag =>
      if tag == Tag.core "bool" then (Plain.bool? s.text).map .bool
      else if tag == Tag.core "int" then s.asWhole?
      else if tag == Tag.core "float" then (Plain.float? s.text).map .float
      else if tag == Tag.core "null" then if Plain.isNull s.text then some .null else none
      else if Tag.unspecific.isPrefixOf tag && s.style == .plain then Plain.value? s.text
      else some (.text s.text)

end Scalar

/-- The key that a node and its value make. A whole number is a position,
unless it is written with a minus. -/
def keyOf : Node → Document → Key
  | _, .text s => .text s
  | .scalar s, .int i => if s.text.startsWith "-" then .other else .position i.toNat
  | _, _ => .other

/-! ## Reading nodes -/

/-- A reader of nodes, with the nodes of anchors and the number of aliases
that may still be followed. -/
abbrev Visitor := ReaderT (List (Nat × Node)) (StateT Nat Option)

namespace Visitor

/-- The node that is meant. -/
def follow : Node → Visitor Node
  | .reference n => do
    match ← get with
    | 0 => failure
    | left + 1 =>
      set left
      match (← read).lookup n with
      | some node => return node
      | none => failure
  | node => return node

/-- Whether a collection has a tag of its own, which no value has. -/
def isOwn (tag : Option Tag) : Bool := (tag.bind Tag.ownName?).isSome

/-- The value of a node that is no alias, with at most so many collections
within each other. -/
def value : (depth : Nat) → Form → Node → Visitor Document
  | _, .scalar expected optional, .scalar s => do
    if optional then s.optional? expected else s.as? expected
  | _, .any, .scalar s => s.value?
  | _, .list _, .scalar s => if s.isVoid then return .list [] else failure
  | _, .record _, .scalar s => if s.isVoid then return .map [] else failure
  | depth + 1, .list items, .list _ nodes => do
    let ds ← nodes.mapM fun node => do value depth items (← follow node)
    return .list ds
  | depth + 1, .record fields, .map _ entries => do
    let known ← entries.filterMapM fun (key, node) => do
      match ← follow key with
      | .scalar s =>
        match fields.lookup s.text with
        | some form => return some (Key.text s.text, ← value depth form (← follow node))
        | none => return none
      | _ => failure
    return .map known
  | depth + 1, .tagged, .list tag (first :: nodes) => do
    guard (!isOwn tag)
    let first ← value depth .text (← follow first)
    let rest ← nodes.mapM fun node => do value depth .any (← follow node)
    return .list (first :: rest)
  | depth + 1, .tagged, .map tag entries => do
    guard (!isOwn tag)
    let entries ← entries.mapM fun (key, node) => do
      let key ← follow key
      let key := keyOf key (← value depth .any key)
      let form := if key == .text "type" then Form.text else .any
      return (key, ← value depth form (← follow node))
    return .map entries
  | depth + 1, .any, .list tag nodes => do
    guard (!isOwn tag)
    let ds ← nodes.mapM fun node => do value depth .any (← follow node)
    return .list ds
  | depth + 1, .any, .map tag entries => do
    guard (!isOwn tag)
    let entries ← entries.mapM fun (key, node) => do
      let key ← follow key
      let key := keyOf key (← value depth .any key)
      return (key, ← value depth .any (← follow node))
    return .map entries
  | _, _, _ => failure

end Visitor

def Tree.value? (tree : Tree) (form : Form) : Option Document :=
  let visit : Visitor Document := do Visitor.value 128 form (← Visitor.follow tree.root)
  ((visit.run tree.anchored).run (100 * tree.root.weight)).map (·.1)

end Yaml

def ofYaml? (form : Form) (s : String) : Option Document :=
  if s.toList.all Yaml.isPrintable then do
    let tree ← Yaml.Tree.ofTokens? (← Yaml.Token.ofChars? (Yaml.withPlainBreaks s.toList))
    tree.value? form
  else none

end Document

end LinkParse
