import LinkParse.Binary64.Basic

/-!
# Decimal numerals

The reading of a number from its decimal text: a whole part, a fraction and
a power of ten, of which the value is taken exactly and then rounded once.
`Binary64.parse?` is the reader of a whole text; the document formats have
grammars of their own and share `Numeral.value`.
-/

namespace LinkParse

/-- The value of a digit in bases up to sixteen. -/
def digitValue? (c : Char) : Option Nat :=
  if c.isDigit then some (c.toNat - 48)
  else if 'a' ≤ c ∧ c ≤ 'f' then some (c.toNat - 87)
  else if 'A' ≤ c ∧ c ≤ 'F' then some (c.toNat - 55)
  else none

/-- The natural number that digits spell in a base; `none` without digits
or with one that the base does not have. -/
def naturalOfDigits? (base : Nat) (cs : List Char) : Option Nat :=
  if cs.isEmpty then none
  else cs.foldlM (fun n c => do
    let d ← digitValue? c
    if d < base then some (n * base + d) else none) 0

/-- The value of a list of decimal digits; other characters count as
nothing. -/
def decimalValue (cs : List Char) : Nat :=
  cs.foldl (fun n c => n * 10 + (digitValue? c).getD 0) 0

/-- A decimal numeral in its parts: the digits before and after the point
and the power of ten behind the mark `e`. -/
structure Numeral where
  negative : Bool
  whole : List Char
  fraction : List Char
  exponent : Int
deriving Repr, DecidableEq

namespace Numeral

/-- The number nearest to the numeral. Numerals from 10 ^ 310 on are
infinite and those below 10 ^ -330 zero, which is decided before any power
is formed. -/
def value (n : Numeral) : Binary64 :=
  let digits := (n.whole ++ n.fraction).dropWhile (· == '0')
  let power : Int := n.exponent - n.fraction.length
  let leading : Int := digits.length + power
  let m := decimalValue digits
  if m = 0 ∨ leading < -330 then Binary64.ofMagnitude n.negative 0
  else if leading > 310 then .inf n.negative
  else if power < 0 then
    Binary64.ofUnits n.negative (Binary64.wholeUnits m) (Nat.pow 10 power.natAbs)
  else Binary64.ofUnits n.negative (Binary64.wholeUnits (m * Nat.pow 10 power.natAbs)) 1

/-- Takes a sign off the front: whether it is a minus, and what follows. -/
def takeSign : List Char → Bool × List Char
  | '-' :: cs => (true, cs)
  | '+' :: cs => (false, cs)
  | cs => (false, cs)

/-- Reads the power of ten: nothing, or a mark, a sign and digits up to the
end. -/
def exponent? : List Char → Option Int
  | [] => some 0
  | c :: cs =>
    if c == 'e' || c == 'E' then
      let (negative, digits) := takeSign cs
      (naturalOfDigits? 10 digits).map fun n => if negative then -(n : Int) else n
    else none

/-- Reads digits, a point, digits and a power of ten, where the digits may
be missing on one side of the point. -/
def unsigned? (negative : Bool) (cs : List Char) : Option Numeral :=
  let whole := cs.takeWhile Char.isDigit
  let rest := cs.dropWhile Char.isDigit
  let (fraction, rest) :=
    match rest with
    | '.' :: more => (more.takeWhile Char.isDigit, more.dropWhile Char.isDigit)
    | other => ([], other)
  if whole.isEmpty && fraction.isEmpty then none
  else (exponent? rest).map fun exponent => { negative, whole, fraction, exponent }

end Numeral

namespace Binary64

/-- Reads a number from a text: a sign or none, and then `inf`, `infinity`
or `nan` in any case or a decimal numeral. -/
def parse? (cs : List Char) : Option Binary64 :=
  let (negative, rest) := Numeral.takeSign cs
  let word := String.ofList (rest.map Char.toLower)
  if word = "inf" ∨ word = "infinity" then some (.inf negative)
  else if word = "nan" then some .nan
  else (Numeral.unsigned? negative rest).map Numeral.value

end Binary64

end LinkParse
