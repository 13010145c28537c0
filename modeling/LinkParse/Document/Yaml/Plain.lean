import LinkParse.Binary64.Numeral
import LinkParse.Document

/-!
# Plain scalars of YAML

What a scalar without marks around it stands for where nothing else is
expected: null, a truth value, a whole number in one of four bases, a
floating number, or else its text.
-/

namespace LinkParse

namespace Document

namespace Yaml

namespace Plain

def isNull (s : String) : Bool := s == "~" || s == "null" || s == "Null" || s == "NULL"

def bool? (s : String) : Option Bool :=
  if s == "true" || s == "True" || s == "TRUE" then some true
  else if s == "false" || s == "False" || s == "FALSE" then some false
  else none

/-- A zero with more digits behind it is a text, not a number. -/
def hasLeadingZero (cs : List Char) : Bool :=
  let digits := (Numeral.takeSign cs).2
  digits.length > 1 && digits.head? == some '0' && digits.all Char.isDigit

/-- Digits in the base that the mark in front of them names. -/
def marked? : List Char → Option Nat
  | '0' :: 'x' :: digits => naturalOfDigits? 16 digits
  | '0' :: 'o' :: digits => naturalOfDigits? 8 digits
  | '0' :: 'b' :: digits => naturalOfDigits? 2 digits
  | _ => none

def natural? (cs : List Char) : Option Nat :=
  match marked? cs with
  | some n => some n
  | none => if hasLeadingZero cs then none else naturalOfDigits? 10 cs

/-- A whole number with a sign or none. -/
def int? (s : String) : Option Int :=
  match s.toList with
  | '-' :: cs => (natural? cs).map fun n => -(n : Int)
  | '+' :: cs => (natural? cs).map Int.ofNat
  | cs => (natural? cs).map Int.ofNat

/-- A floating number: the words for infinities and for no number, or a
decimal numeral in the range of finite numbers. -/
def float? (s : String) : Option Binary64 :=
  let unsigned := match s.toList with
    | '+' :: cs => if cs.head? == some '+' || cs.head? == some '-' then none else some cs
    | cs => some cs
  match unsigned with
  | none => none
  | some cs =>
    let word := String.ofList cs
    if word == ".inf" || word == ".Inf" || word == ".INF" then some (.inf false)
    else if s == "-.inf" || s == "-.Inf" || s == "-.INF" then some (.inf true)
    else if s == ".nan" || s == ".NaN" || s == ".NAN" then some .nan
    else (Binary64.parse? cs).filter Binary64.isFinite

/-- The value of a plain scalar. A whole number that needs more than 64
bits has none, if 128 bits can hold it; a larger one is floating. -/
def value? (s : String) : Option Document :=
  if s.isEmpty || isNull s then some .null
  else
    match bool? s, int? s with
    | some b, _ => some (.bool b)
    | none, some i =>
      if fitsSigned 64 i || fitsUnsigned 64 i then some (.int i)
      else if fitsSigned 128 i || fitsUnsigned 128 i then none
      else some (((float? s).map .float).getD (.text s))
    | none, none =>
      if hasLeadingZero s.toList then some (.text s)
      else some (((float? s).map .float).getD (.text s))

end Plain

end Yaml

end Document

end LinkParse
