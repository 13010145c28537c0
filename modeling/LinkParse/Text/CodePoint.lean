/-!
# Code points

Escapes in texts name characters by their code points. The surrogates, and
what lies beyond the last plane, are no characters.
-/

namespace LinkParse

namespace Text

def ofCodePoint? (code : Nat) : Option Char :=
  if code.isValidChar then some (Char.ofNat code) else none

theorem ofCodePoint?_toNat (c : Char) : ofCodePoint? c.toNat = some c := by
  have h : c.toNat.isValidChar := c.valid
  simp [ofCodePoint?, h]

end Text

end LinkParse
