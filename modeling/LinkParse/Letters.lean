/-!
# The letters of connectors, labels and patterns

A type tag is spelled with ASCII capitals, a subtype sequence with ASCII
small letters and the wildcard `*`, which stands for any subtype. The two
alphabets are disjoint, so a text splits in one way only into a tag and
the subtypes after it.
-/

namespace LinkParse

/-- Stands for any subtype at its position. -/
def wildcard : Char := '*'

def isTagChar (c : Char) : Bool := 'A' ≤ c && c ≤ 'Z'

def isSubtypeChar (c : Char) : Bool := ('a' ≤ c && c ≤ 'z') || c == wildcard

theorem isTagChar_iff {c : Char} : isTagChar c = true ↔ 65 ≤ c.toNat ∧ c.toNat ≤ 90 := by
  simp [isTagChar, Char.le_def, UInt32.le_iff_toNat_le, ← Char.toNat_val]

theorem isSubtypeChar_iff {c : Char} :
    isSubtypeChar c = true ↔ (97 ≤ c.toNat ∧ c.toNat ≤ 122) ∨ c = wildcard := by
  simp [isSubtypeChar, Char.le_def, UInt32.le_iff_toNat_le, ← Char.toNat_val]

/-- No character belongs to both alphabets. -/
theorem isSubtypeChar_of_isTagChar {c : Char} (h : isTagChar c = true) :
    isSubtypeChar c = false := by
  rw [isTagChar_iff] at h
  rw [← Bool.not_eq_true, isSubtypeChar_iff]
  rintro (h' | rfl)
  · omega
  · exact absurd h.1 (by decide)

end LinkParse
