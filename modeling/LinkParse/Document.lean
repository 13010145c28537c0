import LinkParse.Binary64.Basic

/-!
# Documents

What a reader of TOML, YAML or JSON finds in a text: scalars, lists and maps
with their entries in the order of the text.
-/

namespace LinkParse

/-- The key of a map entry: a text, a number, which gives the position of a
field, or something else, which names no field. -/
inductive Document.Key where
  | text (s : String)
  | position (n : Nat)
  | other
deriving Repr, DecidableEq

/-- A value of a document; `moment` is a date or a time. -/
inductive Document where
  | null
  | bool (b : Bool)
  | int (i : Int)
  | float (x : Binary64)
  | text (s : String)
  | moment
  | list (items : List Document)
  | map (entries : List (Document.Key × Document))
deriving Repr

/-- Whether a whole number fits into bits of which one is the sign. -/
def fitsSigned (bits : Nat) (i : Int) : Bool :=
  -(Nat.pow 2 (bits - 1) : Int) ≤ i && i < (Nat.pow 2 (bits - 1) : Int)

/-- Whether a whole number fits into bits without a sign. -/
def fitsUnsigned (bits : Nat) (i : Int) : Bool := 0 ≤ i && i < (Nat.pow 2 bits : Int)

namespace Document

def ofFields (fields : List (String × Document)) : Document :=
  .map (fields.map fun (name, value) => (.text name, value))

def get? (d : Document) (name : String) : Option Document :=
  match d with
  | .map entries => entries.lookup (.text name)
  | _ => none

end Document

end LinkParse
