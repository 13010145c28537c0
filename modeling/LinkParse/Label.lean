import LinkParse.Text.Quoted

/-!
# Labels and label tables

A label is a handle to an entry of a label table. A table holds each text
at most once, so two labels of one table are the same entry exactly when
they spell the same text; labels of different tables are compared by text.
-/

namespace LinkParse

/-- The entry with number `entry` of the table `table`, and its text. -/
structure Label where
  table : Nat
  entry : Nat
  text : String
deriving Repr, DecidableEq

namespace Label

def sameEntry (a b : Label) : Bool := a.table == b.table && a.entry == b.entry

/-- Equality of labels: one entry, or one text in two entries. -/
def same (a b : Label) : Bool := a.sameEntry b || a.text == b.text

def debugText (a : Label) : String := s!"Label({Text.quoted a.text})"

end Label

/-- The texts in the order of their first interning. The number `id` tells
a table from the others that are in use beside it. -/
structure LabelTable where
  id : Nat
  texts : List String
  distinct : texts.Nodup
deriving Repr, DecidableEq

namespace LabelTable

def empty (id : Nat) : LabelTable := ⟨id, [], List.nodup_nil⟩

def size (t : LabelTable) : Nat := t.texts.length

def contains (t : LabelTable) (text : String) : Bool := t.texts.contains text

def find? (t : LabelTable) (text : String) : Option Label :=
  (t.texts.idxOf? text).map fun entry => ⟨t.id, entry, text⟩

/-- The table with a text added behind the others, if it is new. -/
def insert (t : LabelTable) (text : String) : LabelTable :=
  if h : text ∈ t.texts then t
  else
    { t with
      texts := t.texts ++ [text]
      distinct := by
        rw [List.nodup_append]
        exact ⟨t.distinct, by simp, fun a ha b hb => by
          rw [List.mem_singleton] at hb; rintro rfl; exact h (hb ▸ ha)⟩ }

/-- The label of a text, which is added to the table first if need be. -/
def intern (t : LabelTable) (text : String) : LabelTable × Label :=
  (t.insert text, ⟨t.id, (t.texts.idxOf? text).getD t.texts.length, text⟩)

def debugText (t : LabelTable) : String :=
  "LabelInterner \x7b count: " ++ toString t.size ++ " \x7d"

end LabelTable

end LinkParse
