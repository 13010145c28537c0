import LinkParse.Document.Yaml.Token

/-!
# Nodes of YAML

The tree that the tokens of a YAML text spell: scalars, lists and maps with
their tags, and aliases, which stand for nodes with an anchor.

An alias keeps the number of its anchor instead of the node, as the node may
be one around it. An anchor's number is that of the names before it, so a
name that is given again shares the number of the next new one; of several
nodes with one number the last to begin is the one that is meant.
-/

namespace LinkParse

namespace Document

namespace Yaml

structure Scalar where
  tag : Option Tag := none
  style : Style := .plain
  text : String := ""
deriving Repr, DecidableEq

inductive Node where
  | reference (anchor : Nat)
  | scalar (s : Scalar)
  | list (tag : Option Tag) (items : List Node)
  | map (tag : Option Tag) (entries : List (Node × Node))
deriving Repr

namespace Node

def empty : Node := .scalar {}

mutual

/-- The number of scalars, aliases, and beginnings and ends of collections. -/
def weight : Node → Nat
  | .reference _ | .scalar _ => 1
  | .list _ items => 2 + weightOfItems items
  | .map _ entries => 2 + weightOfEntries entries

def weightOfItems : List Node → Nat
  | [] => 0
  | node :: nodes => weight node + weightOfItems nodes

def weightOfEntries : List (Node × Node) → Nat
  | [] => 0
  | (key, value) :: rest => weight key + weight value + weightOfEntries rest

end

end Node

/-- The node of a whole text and the nodes with anchors, by their numbers. -/
structure Tree where
  root : Node
  anchored : List (Nat × Node)
deriving Repr

/-! ## Reading -/

/-- Where the reader of nodes stands: the tokens that are left, what the
handles of tags stand for, the names with the numbers of their anchors, the
numbers of the anchored nodes that have begun, the last one first, and those
of these nodes that are complete, by their places in that list from its
end. -/
structure State where
  tokens : List Token
  handles : List (String × Tag) := Tag.defaultHandles
  names : List (String × Nat) := []
  begun : List Nat := []
  complete : List (Nat × Node) := []
deriving Repr

abbrev Reader := StateT State Option

namespace Reader

def peek : Reader (Option Token) := return (← get).tokens.head?

def pass : Reader Unit := modify fun s => { s with tokens := s.tokens.tail }

def atOne (tokens : List Token) : Reader Bool := return (← peek).any tokens.contains

def passed (t : Token) : Reader Bool := do
  let found ← atOne [t]
  if found then pass
  return found

/-! ## Anchors and tags -/

def anchor? : Reader (Option String) := do
  match ← peek with
  | some (.anchor name) =>
    pass
    return some name
  | _ => return none

def tag? : Reader (Option Tag) := do
  match ← peek with
  | some (.tag handle rest) =>
    pass
    if handle.isEmpty then return some rest
    else
      match (← get).handles.lookup handle with
      | some start => return some (start ++ rest)
      | none => failure
  | _ => return none

/-- The anchor and the tag in front of a node, in either order. -/
def properties : Reader (Option String × Option Tag) := do
  match ← anchor? with
  | some name => return (some name, ← tag?)
  | none =>
    match ← tag? with
    | some tag => return (← anchor?, some tag)
    | none => return (none, none)

/-- Gives a number to the name of a node that begins. The result is the
place of the node among those with an anchor. -/
def enter (name : String) : Reader Nat := do
  let s ← get
  let n := s.names.length
  set { s with names := (name, n) :: s.names.filter (·.1 != name), begun := n :: s.begun }
  return s.begun.length

/-- Keeps a complete node under the place of its anchor. -/
def keep (place : Option Nat) (node : Node) : Reader Node := do
  match place with
  | some place => modify fun s => { s with complete := (place, node) :: s.complete }
  | none => pure ()
  return node

def reference (name : String) : Reader Node := do
  match (← get).names.lookup name with
  | some n => return .reference n
  | none => failure

/-! ## Nodes -/

/-! Of the calls below no more than three are nested for each token. -/

mutual

/-- A node. Only outside of brackets it may be a `block` collection, and only
behind the mark of a key or a value a sequence of the same column. -/
def node : Nat → (block besideKey : Bool) → Reader Node
  | 0, _, _ => failure
  | fuel + 1, block, besideKey => do
    if let some (.reference name) ← peek then
      pass
      reference name
    else
      let (anchor, tag) ← properties
      let place ← anchor.mapM enter
      match ← peek with
      | some (.scalar style s) =>
        pass
        let tag := if tag == some Tag.unspecific then none else tag
        keep place (.scalar ⟨tag, style, s⟩)
      | some .openSequence =>
        pass
        keep place (.list tag (← flowItems fuel true []))
      | some .openMapping =>
        pass
        keep place (.map tag (← flowEntries fuel true []))
      | t =>
        if besideKey && t == some .dash then keep place (.list tag (← blockItems fuel true []))
        else if block && t == some .blockSequence then do
          pass
          keep place (.list tag (← blockItems fuel false []))
        else if block && t == some .blockMapping then do
          pass
          keep place (.map tag (← blockEntries fuel []))
        else if anchor.isSome || tag.isSome then keep place (.scalar { tag })
        else failure
termination_by structural fuel => fuel

/-- A node, or none in front of one of the given tokens. -/
def nodeUnless : Nat → (block besideKey : Bool) → List Token → Reader Node
  | 0, _, _, _ => failure
  | fuel + 1, block, besideKey, ends => do
    if ← atOne ends then return .empty else node fuel block besideKey
termination_by structural fuel => fuel

/-- The items of a block sequence behind those already read, which are in
reverse. A sequence in the column of its key has no end of its own. -/
def blockItems : Nat → (besideKey : Bool) → List Node → Reader (List Node)
  | 0, _, _ => failure
  | fuel + 1, besideKey, read => do
    if ← passed .dash then
      let ends := if besideKey then [.dash, .key, .colon, .blockEnd] else [.dash, .blockEnd]
      let item ← nodeUnless fuel true false ends
      blockItems fuel besideKey (item :: read)
    else
      unless besideKey do guard (← passed .blockEnd)
      return read.reverse
termination_by structural fuel => fuel

/-- The entries of a block mapping behind those already read. -/
def blockEntries : Nat → List (Node × Node) → Reader (List (Node × Node))
  | 0, _ => failure
  | fuel + 1, read => do
    if ← passed .key then
      let ends := [.key, .colon, .blockEnd]
      let key ← nodeUnless fuel true true ends
      let value ←
        if ← passed .colon then nodeUnless fuel true true ends else pure .empty
      blockEntries fuel ((key, value) :: read)
    else
      guard (← passed .blockEnd)
      return read.reverse
termination_by structural fuel => fuel

/-- The items of a flow sequence behind those already read. A key with its
value is a map of one entry. -/
def flowItems : Nat → (first : Bool) → List Node → Reader (List Node)
  | 0, _, _ => failure
  | fuel + 1, first, read => do
    if ← passed .closeSequence then return read.reverse
    else
      unless first do guard (← passed .comma)
      if ← passed .closeSequence then return read.reverse
      else
        let item ← if ← passed .key then flowPair fuel else node fuel false false
        flowItems fuel false (item :: read)
termination_by structural fuel => fuel

/-- A pair within a flow sequence behind the mark of its key. Where the key is
left out, what ends it is passed over. -/
def flowPair : Nat → Reader Node
  | 0 => failure
  | fuel + 1 => do
    let key ←
      if ← atOne [.colon, .comma, .closeSequence] then do
        pass
        pure .empty
      else node fuel false false
    return .map none [(key, ← flowValue fuel .closeSequence)]
termination_by structural fuel => fuel

/-- The value behind a key within brackets that end with the given token. -/
def flowValue : Nat → (closing : Token) → Reader Node
  | 0, _ => failure
  | fuel + 1, closing => do
    if ← passed .colon then nodeUnless fuel false false [.comma, closing] else return .empty
termination_by structural fuel => fuel

/-- The entries of a flow mapping behind those already read. -/
def flowEntries : Nat → (first : Bool) → List (Node × Node) → Reader (List (Node × Node))
  | 0, _, _ => failure
  | fuel + 1, first, read => do
    if ← passed .closeMapping then return read.reverse
    else
      unless first do guard (← passed .comma)
      if ← passed .closeMapping then return read.reverse
      else if ← passed .key then
        let key ← nodeUnless fuel false false [.colon, .comma, .closeMapping]
        let value ← flowValue fuel .closeMapping
        flowEntries fuel false ((key, value) :: read)
      else
        let key ← node fuel false false
        flowEntries fuel false ((key, .empty) :: read)
termination_by structural fuel => fuel

end

/-! ## The whole text -/

/-- The directives in front of a document: a version at most once, and each
handle at most once. -/
def directives : Nat → (versioned : Bool) → (given : List (String × Tag)) → Reader Unit
  | 0, _, _ => failure
  | fuel + 1, versioned, given => do
    match ← peek with
    | some (.version major minor) =>
      guard (!versioned && major == 1 && (minor == 1 || minor == 2))
      pass
      directives fuel true given
    | some (.handle name tag) =>
      guard (given.lookup name).isNone
      pass
      directives fuel versioned ((name, tag) :: given)
    | _ => modify fun s => { s with handles := given ++ s.handles }

def isDirective : Token → Bool
  | .version _ _ | .handle _ _ => true
  | _ => false

/-- The one document of a text, which may begin with directives and a mark,
and may end with marks. -/
def document (fuel : Nat) : Reader Node := do
  if (← peek).any fun t => isDirective t || t == .documentStart then
    directives fuel false []
    guard (← passed .documentStart)
    match ← peek with
    | none => return .empty
    | some t =>
      if isDirective t || t == .documentStart || t == .documentEnd then return .empty
      else node fuel true false
  else node fuel true false

end Reader

/-- The nodes with anchors by their numbers, the last to begin first. -/
def State.anchored (s : State) : List (Nat × Node) :=
  let places := (List.range s.begun.length).reverse
  (s.begun.zip places).filterMap fun (n, place) => (s.complete.lookup place).map (n, ·)

/-- The tree of a text. A text without tokens holds an empty scalar. -/
def Tree.ofTokens? (tokens : List Token) : Option Tree :=
  if tokens.isEmpty then some ⟨.empty, []⟩
  else do
    let (root, s) ← (Reader.document (3 * (tokens.length + 1))).run { tokens }
    if s.tokens.all (· == .documentEnd) then some ⟨root, s.anchored⟩ else none

end Yaml

end Document

end LinkParse
