import LinkParse.Document

/-!
# Forms

What a reader of documents expects at each place of a text. YAML leaves the
type of a scalar open: the same word is a text where a text is expected and
a number where a number is. Its reader is guided by a form; TOML and JSON
say the types themselves and need none.
-/

namespace LinkParse

namespace Document

/-- What a scalar is taken for. A name is one of a list of words; it may
stand as a text or as the tag of an empty scalar. -/
inductive ScalarForm where
  | text
  | number
  | truth
  | name
deriving Repr, DecidableEq

/-- What is expected at a place. An optional scalar may be null. A tagged
record says by its own field `type` which fields the others are; what it
holds is read without any expectation, as at a place where `any` value may
stand. -/
inductive Form where
  | scalar (expected : ScalarForm) (optional : Bool)
  | list (items : Form)
  | record (fields : List (String × Form))
  | tagged
  | any
deriving Repr

namespace Form

def text : Form := .scalar .text false

def number : Form := .scalar .number false

def truth : Form := .scalar .truth false

def name : Form := .scalar .name false

end Form

/-- The fields of a record with what is expected of each, in the order in
which a list gives them. -/
abbrev Layout := List (String × Form)

def Layout.names (layout : Layout) : List String := layout.map (·.1)

end Document

end LinkParse
