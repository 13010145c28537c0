/-!
# The bytes of a text

Patterns are compared with labels byte by byte, so a character outside
ASCII takes as many positions as its UTF-8 form has bytes.
-/

namespace LinkParse

namespace Text

/-- The UTF-8 form of a text, as a list of bytes. -/
def bytes (s : String) : List UInt8 := s.toList.flatMap String.utf8EncodeChar

/-- A cut at a position behind the end of what is cut. -/
structure CutFault where
  length : Nat
  start : Nat
deriving Repr, DecidableEq

def CutFault.message (e : CutFault) : String :=
  s!"range start index {e.start} out of range for slice of length {e.length}"

/-- The bytes from a position on. The position may be the end, but not lie
behind it. -/
def bytesFrom (bs : List UInt8) (start : Nat) : Except CutFault (List UInt8) :=
  if start ≤ bs.length then .ok (bs.drop start) else .error ⟨bs.length, start⟩

end Text

end LinkParse
