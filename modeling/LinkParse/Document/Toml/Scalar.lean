import LinkParse.Binary64.Numeral
import LinkParse.Document
import LinkParse.Text.CodePoint

/-!
# Scalars of TOML

Strings in their four forms, numbers, truth values, and dates and times. A
reader here takes the characters from the start of a scalar on and gives
what it found with the characters behind it.
-/

namespace LinkParse

namespace Document

namespace Toml

/-! ## Characters and lines -/

/-- Spaces and tabs, the blanks within a line. -/
def isBlank (c : Char) : Bool := c == ' ' || c == '\t'

/-- What may stand in a comment or a string as it is. -/
def isTextChar (c : Char) : Bool := c == '\t' || (0x20 ≤ c.toNat && c.toNat != 0x7F)

def skipBlanks (cs : List Char) : List Char := cs.dropWhile isBlank

/-- What follows a line break, if there is one. -/
def afterBreak? : List Char → Option (List Char)
  | '\n' :: rest | '\r' :: '\n' :: rest => some rest
  | _ => none

/-! ## Strings -/

/-- The character behind a backslash, unless it begins a code point. -/
def escaped? : Char → Option Char
  | 'b' => some '\x08'
  | 't' => some '\t'
  | 'n' => some '\n'
  | 'f' => some '\x0c'
  | 'r' => some '\r'
  | '"' => some '"'
  | '\\' => some '\\'
  | _ => none

/-- The marks at the end of a long string, behind the first of them: three
close it, and up to two more in front of these belong to it. -/
def longEnd? (mark : Char) : List Char → Option (List Char × List Char)
  | a :: b :: rest =>
    if a = mark ∧ b = mark then
      match rest with
      | c :: d :: more =>
        if c = mark ∧ d = mark then some ([mark, mark], more)
        else if c = mark then some ([mark], d :: more)
        else some ([], rest)
      | [c] => if c = mark then some ([mark], []) else some ([], rest)
      | [] => some ([], [])
    else none
  | _ => none

def consText (c : Char) (read : Option (List Char × List Char)) : Option (List Char × List Char) :=
  read.map fun (cs, rest) => (c :: cs, rest)

/-- The text of a basic string up to its closing mark. A long string may
hold line breaks and single marks; in it a backslash at the end of a line
joins the line to the next text, and `skipping` is set on the way there. -/
def basicBody? (long : Bool) : (skipping : Bool) → List Char → Option (List Char × List Char)
  | _, [] => none
  | _, '\\' :: 'u' :: a :: b :: c :: d :: rest => do
    let code ← naturalOfDigits? 16 [a, b, c, d]
    consText (← Text.ofCodePoint? code) (basicBody? long false rest)
  | _, '\\' :: 'U' :: a :: b :: c :: d :: e :: f :: g :: h :: rest => do
    let code ← naturalOfDigits? 16 [a, b, c, d, e, f, g, h]
    consText (← Text.ofCodePoint? code) (basicBody? long false rest)
  | _, '\\' :: c :: rest =>
    match escaped? c with
    | some c => consText c (basicBody? long false rest)
    | none =>
      if long && (afterBreak? (skipBlanks (c :: rest))).isSome then
        basicBody? long true (c :: rest)
      else none
  | _, '"' :: rest =>
    if long then
      match longEnd? '"' rest with
      | some closed => some closed
      | none => consText '"' (basicBody? long false rest)
    else some ([], rest)
  | skipping, '\r' :: '\n' :: rest =>
    if skipping then basicBody? long true rest
    else if long then consText '\n' (basicBody? long false rest)
    else none
  | skipping, c :: rest =>
    if skipping && (isBlank c || c == '\n') then basicBody? long true rest
    else if isTextChar c || (long && c == '\n') then consText c (basicBody? long false rest)
    else none

/-- The text of a literal string, in which no character has a meaning of
its own, up to its closing mark. -/
def literalBody? (long : Bool) : List Char → Option (List Char × List Char)
  | [] => none
  | '\'' :: rest =>
    if long then
      match longEnd? '\'' rest with
      | some closed => some closed
      | none => consText '\'' (literalBody? long rest)
    else some ([], rest)
  | '\r' :: '\n' :: rest => if long then consText '\n' (literalBody? long rest) else none
  | c :: rest =>
    if isTextChar c || (long && c == '\n') then consText c (literalBody? long rest) else none

/-- A long string does not begin with the line break behind its mark. -/
def dropBreak (cs : List Char) : List Char := (afterBreak? cs).getD cs

def string? : List Char → Option (List Char × List Char)
  | '"' :: '"' :: '"' :: rest => basicBody? true false (dropBreak rest)
  | '"' :: rest => basicBody? false false rest
  | '\'' :: '\'' :: '\'' :: rest => literalBody? true (dropBreak rest)
  | '\'' :: rest => literalBody? false rest
  | _ => none

/-! ## Numbers -/

/-- Digits without the underscores that stand between two of them. -/
def ungrouped? (isDigit : Char → Bool) : List Char → Option (List Char)
  | [] => none
  | [c] => if isDigit c then some [c] else none
  | c :: '_' :: rest => if isDigit c then (ungrouped? isDigit rest).map (c :: ·) else none
  | c :: rest => if isDigit c then (ungrouped? isDigit rest).map (c :: ·) else none

/-- Digits of a base, whichever they are. -/
def natural? (base : Nat) (cs : List Char) : Option Nat := do
  naturalOfDigits? base (← ungrouped? (fun c => (digitValue? c).any (· < base)) cs)

/-- Decimal digits, of which the first is no zero unless it is the only
one. -/
def wholeDigits? (cs : List Char) : Option (List Char) :=
  (ungrouped? Char.isDigit cs).filter fun ds => ds.length == 1 || ds.head? != some '0'

def integer? (cs : List Char) : Option Int :=
  let value? : Option Int :=
    match cs with
    | '0' :: 'x' :: ds => (natural? 16 ds).map Int.ofNat
    | '0' :: 'o' :: ds => (natural? 8 ds).map Int.ofNat
    | '0' :: 'b' :: ds => (natural? 2 ds).map Int.ofNat
    | cs =>
      let (negative, digits) := Numeral.takeSign cs
      (wholeDigits? digits).map fun ds =>
        if negative then -(decimalValue ds : Int) else decimalValue ds
  value?.filter (fitsSigned 64)

def exponent? (cs : List Char) : Option Int := do
  let (negative, digits) := Numeral.takeSign cs
  let n := decimalValue (← ungrouped? Char.isDigit digits)
  return if negative then -(n : Int) else n

/-- A decimal numeral with a fraction, a power of ten or both. -/
def numeral? (cs : List Char) : Option Numeral := do
  let isMark (c : Char) : Bool := c == 'e' || c == 'E'
  let (negative, unsigned) := Numeral.takeSign cs
  let mantissa := unsigned.takeWhile (!isMark ·)
  let whole ← wholeDigits? (mantissa.takeWhile (· != '.'))
  let point := mantissa.dropWhile (· != '.')
  let power := unsigned.dropWhile (!isMark ·)
  if point.isEmpty && power.isEmpty then none
  else
    let fraction ← if point.isEmpty then some [] else ungrouped? Char.isDigit (point.drop 1)
    let exponent ← if power.isEmpty then some 0 else exponent? (power.drop 1)
    return { negative, whole, fraction, exponent }

/-- A floating number. A numeral beyond the largest number is refused; one
below the smallest counts as minus infinity. -/
def float? (cs : List Char) : Option Binary64 :=
  let (negative, word) := Numeral.takeSign cs
  if word == ['i', 'n', 'f'] then some (.inf negative)
  else if word == ['n', 'a', 'n'] then some .nan
  else ((numeral? cs).map Numeral.value).filter (· != .inf false)

/-! ## Dates and times -/

/-- The number that exactly `count` digits at the start spell. -/
def fixedDigits? (count : Nat) (cs : List Char) : Option (Nat × List Char) :=
  let digits := cs.take count
  if digits.length = count ∧ digits.all Char.isDigit then some (decimalValue digits, cs.drop count)
  else none

def daysOf (year month : Nat) : Nat :=
  if month = 2 then
    if year % 4 = 0 ∧ (year % 100 ≠ 0 ∨ year % 400 = 0) then 29 else 28
  else if month = 4 ∨ month = 6 ∨ month = 9 ∨ month = 11 then 30
  else 31

/-- What follows a day of the calendar. -/
def afterDate? (cs : List Char) : Option (List Char) :=
  match fixedDigits? 4 cs with
  | some (year, '-' :: cs) =>
    match fixedDigits? 2 cs with
    | some (month, '-' :: cs) =>
      match fixedDigits? 2 cs with
      | some (day, rest) =>
        if 1 ≤ month ∧ month ≤ 12 ∧ 1 ≤ day ∧ day ≤ daysOf year month then some rest else none
      | none => none
    | _ => none
  | _ => none

/-- What follows hours and minutes. -/
def afterMinutes? (cs : List Char) : Option (List Char) :=
  match fixedDigits? 2 cs with
  | some (hours, ':' :: cs) =>
    match fixedDigits? 2 cs with
    | some (minutes, rest) => if hours < 24 ∧ minutes < 60 then some rest else none
    | none => none
  | _ => none

/-- What follows a time of the day, of which the seconds may have a
fraction. -/
def afterTime? (cs : List Char) : Option (List Char) :=
  match afterMinutes? cs with
  | some (':' :: cs) =>
    match fixedDigits? 2 cs with
    | some (seconds, rest) =>
      if 60 < seconds then none
      else
        match rest with
        | '.' :: c :: more => if c.isDigit then some (more.dropWhile Char.isDigit) else none
        | rest => some rest
    | none => none
  | _ => none

/-- Whether a time zone, or none, is all that is left. -/
def isZone : List Char → Bool
  | [] | ['Z'] | ['z'] => true
  | '+' :: cs | '-' :: cs => afterMinutes? cs == some []
  | _ => false

/-- Whether this is a time of the day with a time zone or none. -/
def isZonedTime (cs : List Char) : Bool := (afterTime? cs).any isZone

def isMoment (cs : List Char) : Bool :=
  match afterDate? cs with
  | some [] => true
  | some (c :: rest) => (c == 'T' || c == 't') && isZonedTime rest
  | none => afterTime? cs == some []

/-! ## All scalars -/

/-- What unquoted scalars are made of. -/
def isWordChar (c : Char) : Bool :=
  c.isAlphanum || c == '+' || c == '-' || c == '_' || c == '.' || c == ':'

def word? (cs : List Char) : Option Document :=
  if cs == ['t', 'r', 'u', 'e'] then some (.bool true)
  else if cs == ['f', 'a', 'l', 's', 'e'] then some (.bool false)
  else if isMoment cs then some .moment
  else
    match integer? cs with
    | some i => some (.int i)
    | none => (float? cs).map .float

/-- A scalar from its start. Between a day and its time there may be a
space. -/
def scalarFrom? (cs : List Char) : Option (Document × List Char) :=
  match cs with
  | '"' :: _ | '\'' :: _ => (string? cs).map fun (s, rest) => (.text (String.ofList s), rest)
  | _ =>
    let word := cs.takeWhile isWordChar
    let rest := cs.dropWhile isWordChar
    match rest with
    | ' ' :: more =>
      let time := more.takeWhile isWordChar
      if afterDate? word == some [] && isZonedTime time then
        some (.moment, more.dropWhile isWordChar)
      else (word? word).map fun d => (d, rest)
    | rest => (word? word).map fun d => (d, rest)

end Toml

end Document

end LinkParse
