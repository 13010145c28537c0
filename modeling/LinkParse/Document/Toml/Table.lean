import LinkParse.Document

/-!
# Tables of TOML

The text of a TOML document names its tables piece by piece: by headers, by
the paths of headers and by dotted keys. A `Node` remembers how a table came
to be, since that decides in which way more can be added to it, so that no
table is defined twice and no value replaced.
-/

namespace LinkParse

namespace Document

namespace Toml

/-- How a table came to be: by a header of its own, on the path of another
header, or by a dotted key. -/
inductive Origin where
  | header
  | path
  | dottedKey
deriving Repr, DecidableEq

/-- A value, a table, or a list of tables with the last one first. -/
inductive Node where
  | value (d : Document)
  | table (origin : Origin) (entries : List (String × Node))
  | tables (last : List (String × Node)) (earlier : List (List (String × Node)))
deriving Repr

abbrev Entries := List (String × Node)

namespace Entries

def replace (entries : Entries) (name : String) (node : Node) : Entries :=
  entries.map fun (other, old) => if other = name then (other, node) else (other, old)

def add? (entries : Entries) (name : String) (node : Node) : Option Entries :=
  if (entries.lookup name).isSome then none else some (entries ++ [(name, node)])

/-- Changes the table at the end of a path. Tables that are missing on the
way are made; of a list of tables the last one is meant. A dotted key does
not lead into a table that has a header. -/
def change? (dotted : Bool) (f : Origin → Entries → Option Entries) :
    List String → Origin → Entries → Option Entries
  | [], origin, entries => f origin entries
  | name :: names, _, entries =>
    match entries.lookup name with
    | none => do
      let origin := if dotted then Origin.dottedKey else .path
      let inner ← change? dotted f names origin []
      return entries ++ [(name, .table origin inner)]
    | some (.table origin inner) =>
      if dotted ∧ origin = .header then none
      else do
        let inner ← change? dotted f names origin inner
        return entries.replace name (.table origin inner)
    | some (.tables last earlier) => do
      let last ← change? dotted f names .header last
      return entries.replace name (.tables last earlier)
    | some (.value _) => none

/-- Adds a value under a key with one or more parts. A table on the path of
a header takes no values by dotted keys. -/
def put? (entries : Entries) (path : List String) (d : Document) : Option Entries :=
  match path.getLast? with
  | none => none
  | some name =>
    let parts := path.dropLast
    entries.change? true (fun origin inner =>
      if (origin = .dottedKey) = parts.isEmpty then none else inner.add? name (.value d))
      parts .header

/-- Adds a value to the table that the last header names. -/
def putBelow? (entries : Entries) (header path : List String) (d : Document) : Option Entries :=
  entries.change? false (fun _ inner => inner.put? path d) header .header

/-- Adds the table of a header, which has none yet. -/
def openTable? (entries : Entries) (header : List String) : Option Entries :=
  match header.getLast? with
  | none => none
  | some name =>
    entries.change? false (fun _ inner =>
      match inner.lookup name with
      | none => some (inner ++ [(name, .table .header [])])
      | some (.table .path contents) => some (inner.replace name (.table .header contents))
      | some _ => none) header.dropLast .header

/-- Adds one more table to the list that a header names. -/
def openItem? (entries : Entries) (header : List String) : Option Entries :=
  match header.getLast? with
  | none => none
  | some name =>
    entries.change? false (fun _ inner =>
      match inner.lookup name with
      | none => some (inner ++ [(name, .tables [] [])])
      | some (.tables last earlier) =>
        some (inner.replace name (.tables [] (last :: earlier)))
      | some _ => none) header.dropLast .header

end Entries

/-! ## The finished document -/

mutual

def Node.document : Node → Document
  | .value d => d
  | .table _ entries => .map (Entries.fields entries)
  | .tables last earlier => .list ((.map (Entries.fields last) :: tablesOf earlier).reverse)

def Entries.fields : Entries → List (Key × Document)
  | [] => []
  | (name, node) :: rest => (.text name, node.document) :: Entries.fields rest

def tablesOf : List Entries → List Document
  | [] => []
  | entries :: rest => .map (Entries.fields entries) :: tablesOf rest

end

end Toml

end Document

end LinkParse
