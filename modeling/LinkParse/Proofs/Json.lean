import LinkParse.Document.Json
import Mathlib.Data.List.TakeWhile

/-!
# JSON texts that are read back

A document is *plain* if it has no floating numbers and no moments, and its
maps have texts as keys, none twice. The text that the writer gives for a
plain document is read as that document (`Document.ofJson?_toJson`).

The writer adds to a text that is already there. `Json.chars` says what it
adds, and the reader is followed over these characters, with something
behind them that does not continue a number.
-/

namespace LinkParse

/-! ## Decimal numerals -/

theorem digitValue?_of_isDigit {c : Char} (h : c.isDigit = true) :
    digitValue? c = some (c.toNat - '0'.toNat) := by
  rw [digitValue?, if_pos h]
  rfl

theorem foldl_decimal {cs : List Char} (h : ∀ c ∈ cs, c.isDigit = true) (n : Nat) :
    cs.foldl (fun n c => n * 10 + (digitValue? c).getD 0) n = Nat.ofDigitChars 10 cs n := by
  induction cs generalizing n with
  | nil => rfl
  | cons c cs ih =>
      rw [List.forall_mem_cons] at h
      rw [List.foldl_cons, Nat.ofDigitChars_cons, ih h.2, digitValue?_of_isDigit h.1,
        Option.getD_some, Nat.mul_comm]

theorem isDigit_of_mem_toDigits {n : Nat} : ∀ c ∈ Nat.toDigits 10 n, c.isDigit = true :=
  fun _ hc => Nat.isDigit_of_mem_toDigits (by decide) (by decide) hc

theorem decimalValue_toDigits (n : Nat) : decimalValue (Nat.toDigits 10 n) = n := by
  rw [decimalValue, foldl_decimal isDigit_of_mem_toDigits, Nat.ofDigitChars_ten_toDigits]

/-- Only zero begins with the digit zero. -/
theorem head?_toDigits_ne_zero {n : Nat} (h : 0 < n) : (Nat.toDigits 10 n).head? ≠ some '0' := by
  induction n using Nat.base_induction 10 (by decide) with
  | single m hm =>
      rw [Nat.toDigits_of_lt_base hm, List.head?_cons]
      intro hzero
      have := Nat.toNat_digitChar_of_lt_ten hm
      rw [Option.some.inj hzero] at this
      have hm0 : m = 0 := by simpa using this
      omega
  | digit m k hk hm ih =>
      have hmore := ih hm
      rw [← Nat.toDigits_append_toDigits (by decide) hm hk]
      cases hcs : Nat.toDigits 10 m with
      | nil => exact absurd hcs Nat.toDigits_ne_nil
      | cons c cs => rwa [hcs] at hmore

namespace Document.Json

/-- Whether a character may stand in a number. -/
def isNumberPart (c : Char) : Bool :=
  c.isDigit || c == '-' || c == '+' || c == '.' || c == 'e' || c == 'E'

theorem takeWhile_isDigit_toDigits (n : Nat) :
    (Nat.toDigits 10 n).takeWhile Char.isDigit = Nat.toDigits 10 n :=
  List.takeWhile_eq_self_iff.mpr isDigit_of_mem_toDigits

theorem dropWhile_isDigit_toDigits (n : Nat) : (Nat.toDigits 10 n).dropWhile Char.isDigit = [] :=
  List.dropWhile_eq_nil_iff.mpr isDigit_of_mem_toDigits

/-- Digits never have a zero in front of them. -/
theorem hasLeadingZero_toDigits (n : Nat) : (decide (1 < (Nat.toDigits 10 n).length) &&
    (Nat.toDigits 10 n).head? == some '0') = false := by
  rcases Nat.eq_zero_or_pos n with rfl | hn
  · rfl
  · rw [beq_eq_false_iff_ne.mpr (head?_toDigits_ne_zero hn), Bool.and_false]

theorem notMem_of_isNumberPart {c : Char} {cs : List Char} (hc : isNumberPart c = true)
    (hcs : cs.any isNumberPart = false) : c ∉ cs := by
  intro hmem
  exact List.any_eq_false.mp hcs c hmem hc

theorem number?_digits (n : Nat) : number? (Nat.toDigits 10 n) = some (.int n) := by
  have htake := takeWhile_isDigit_toDigits n
  have hdrop := dropWhile_isDigit_toDigits n
  have hlead := hasLeadingZero_toDigits n
  have hvalue := decimalValue_toDigits n
  have hdigit := isDigit_of_mem_toDigits (n := n)
  cases hcs : Nat.toDigits 10 n with
  | nil => exact absurd hcs Nat.toDigits_ne_nil
  | cons c cs =>
      rw [hcs] at htake hdrop hlead hvalue hdigit
      have hc : c ≠ '-' := by
        rintro rfl
        cases hdigit '-' List.mem_cons_self
      simp only [number?, List.cons.injEq, hc, false_and, IsEmpty.forall_iff, implies_true, htake,
        hdrop, gt_iff_lt, hlead, hvalue]
      simp

theorem number?_minus {n : Nat} (h : 0 < n) :
    number? ('-' :: Nat.toDigits 10 n) = some (.int (-n)) := by
  have hne : Nat.toDigits 10 n ≠ ['0'] := fun heq => head?_toDigits_ne_zero h (by rw [heq]; rfl)
  simp only [number?, takeWhile_isDigit_toDigits, dropWhile_isDigit_toDigits, gt_iff_lt,
    hasLeadingZero_toDigits, decimalValue_toDigits]
  simp [hne]

theorem toList_toString_ofNat (n : Nat) :
    (toString (Int.ofNat n)).toList = Nat.toDigits 10 n := Nat.toList_repr

theorem toList_toString_negSucc (n : Nat) :
    (toString (Int.negSucc n)).toList = '-' :: Nat.toDigits 10 (n + 1) := by
  have hminus : toString (Int.negSucc n) = "-" ++ (n + 1).repr := rfl
  rw [hminus, String.toList_append, Nat.toList_repr]
  rfl

theorem number?_toString (i : Int) : number? (toString i).toList = some (.int i) := by
  cases i with
  | ofNat n =>
      rw [toList_toString_ofNat]
      exact number?_digits n
  | negSucc n =>
      rw [toList_toString_negSucc]
      exact number?_minus (Nat.succ_pos n)

theorem toList_toString_ne_nil (i : Int) : (toString i).toList ≠ [] := by
  cases i with
  | ofNat n => exact toList_toString_ofNat n ▸ Nat.toDigits_ne_nil
  | negSucc n => exact toList_toString_negSucc n ▸ List.cons_ne_nil _ _

theorem isNumberPart_of_mem_toString {i : Int} :
    ∀ c ∈ (toString i).toList, isNumberPart c = true := by
  have hdigits : ∀ (n : Nat), ∀ c ∈ Nat.toDigits 10 n, isNumberPart c = true := by
    intro n c hc
    simp [isNumberPart, isDigit_of_mem_toDigits c hc]
  cases i with
  | ofNat n => exact toList_toString_ofNat n ▸ hdigits n
  | negSucc n =>
      rw [toList_toString_negSucc, List.forall_mem_cons]
      exact ⟨rfl, hdigits (n + 1)⟩

/-! ## Texts -/

/-- What the writer adds for a text. -/
def quoted (s : String) : List Char := '"' :: (s.toList.flatMap escape ++ ['"'])

theorem toList_foldl_push (out : String) (cs : List Char) :
    (cs.foldl String.push out).toList = out.toList ++ cs := by
  induction cs generalizing out with
  | nil => simp
  | cons c cs ih => simp [ih]

theorem toList_addString (out s : String) : (addString out s).toList = out.toList ++ quoted s := by
  have hfold : ∀ (cs : List Char) (out : String),
      (cs.foldl (fun out c => (escape c).foldl String.push out) out).toList =
        out.toList ++ cs.flatMap escape := by
    intro cs
    induction cs with
    | nil => simp
    | cons c cs ih =>
        intro out
        rw [List.foldl_cons, ih, toList_foldl_push, List.flatMap_cons, List.append_assoc]
  simp [addString, quoted, hfold]

/-- The digits behind `u` for a character below the space. -/
theorem codeDigits : ∀ n < 0x20,
    List.replicate (4 - (Nat.toDigits 16 n).length) '0' ++ Nat.toDigits 16 n =
        ['0', '0', Nat.digitChar (n / 16), Nat.digitChar (n % 16)] ∧
      naturalOfDigits? 16 ['0', '0', Nat.digitChar (n / 16), Nat.digitChar (n % 16)] = some n := by
  decide

theorem stringBody?_backslash {c d : Char} {rest : List Char} (hd : escaped? d = some c) :
    stringBody? ('\\' :: d :: rest) = (stringBody? rest).map (Prod.map (List.cons c) id) := by
  rw [stringBody?.eq_4 d rest, hd]
  · cases stringBody? rest <;> rfl
  · rintro _ _ _ _ _ rfl -
    cases hd

theorem stringBody?_code {c : Char} {rest : List Char} (h : c.toNat < 0x20) :
    stringBody? ('\\' :: 'u' :: (List.replicate (4 - (Nat.toDigits 16 c.toNat).length) '0' ++
      Nat.toDigits 16 c.toNat) ++ rest) = (stringBody? rest).map (Prod.map (List.cons c) id) := by
  obtain ⟨hdigits, hvalue⟩ := codeDigits c.toNat h
  have hhigh : ¬(0xD800 ≤ c.toNat ∧ c.toNat < 0xDC00) := by omega
  rw [hdigits]
  simp only [List.cons_append, List.nil_append, stringBody?, hvalue, Option.bind_eq_bind,
    Option.bind_some, hhigh, if_false, Text.ofCodePoint?_toNat]
  cases stringBody? rest <;> rfl

theorem stringBody?_plain {c : Char} {rest : List Char} (hquote : c ≠ '"') (hslash : c ≠ '\\')
    (h : ¬c.toNat < 0x20) :
    stringBody? (c :: rest) = (stringBody? rest).map (Prod.map (List.cons c) id) := by
  rw [stringBody?.eq_5 c rest hquote (fun _ _ _ _ _ hc => absurd hc hslash)
    (fun _ _ hc => absurd hc hslash), if_neg (not_or.mpr ⟨h, hslash⟩)]
  cases stringBody? rest <;> rfl

theorem stringBody?_escape (c : Char) (rest : List Char) :
    stringBody? (escape c ++ rest) = (stringBody? rest).map (Prod.map (List.cons c) id) := by
  unfold escape
  by_cases hquote : c = '"'
  · subst hquote
    exact stringBody?_backslash rfl
  by_cases hslash : c = '\\'
  · subst hslash
    exact stringBody?_backslash rfl
  by_cases hline : c = '\n'
  · subst hline
    exact stringBody?_backslash rfl
  rw [if_neg hquote, if_neg hslash, if_neg hline]
  by_cases hcode : c.toNat < 0x20
  · rw [if_pos hcode]
    exact stringBody?_code hcode
  · rw [if_neg hcode]
    exact stringBody?_plain hquote hslash hcode

theorem stringBody?_flatMap_escape (cs rest : List Char) :
    stringBody? (cs.flatMap escape ++ '"' :: rest) = some (cs, rest) := by
  induction cs with
  | nil => rfl
  | cons c cs ih =>
      rw [List.flatMap_cons, List.append_assoc, stringBody?_escape, ih]
      rfl

/-! ## Values -/

mutual

/-- What the writer adds for a document. -/
def chars : Document → List Char
  | .null | .moment => ['n', 'u', 'l', 'l']
  | .bool b => (if b then "true" else "false").toList
  | .int i => (toString i).toList
  | .float x => (if x.isFinite then x.pointText else "null").toList
  | .text s => quoted s
  | .list items => '[' :: (itemChars true items ++ [']'])
  | .map entries => '\x7b' :: (entryChars true entries ++ ['\x7d'])

def itemChars (first : Bool) : List Document → List Char
  | [] => []
  | d :: ds => (if first then [] else [',']) ++ (chars d ++ itemChars false ds)

def entryChars (first : Bool) : List (Key × Document) → List Char
  | [] => []
  | (key, d) :: rest =>
    (if first then [] else [',']) ++
      (quoted (keyText key) ++ ':' :: (chars d ++ entryChars false rest))

end

mutual

theorem toList_add (out : String) : (d : Document) → (add out d).toList = out.toList ++ chars d
  | .null | .moment => by simp [add, chars]
  | .bool b => by simp [add, chars]
  | .int i => by simp [add, chars]
  | .float x => by simp [add, chars]
  | .text s => by rw [add, chars, toList_addString]
  | .list items => by simp [add, chars, toList_addItems]
  | .map entries => by simp [add, chars, toList_addEntries]

theorem toList_addItems (out : String) (first : Bool) : (items : List Document) →
    (addItems out first items).toList = out.toList ++ itemChars first items
  | [] => by simp [addItems, itemChars]
  | d :: ds => by
      rw [addItems, itemChars, toList_addItems, toList_add]
      cases first <;> simp

theorem toList_addEntries (out : String) (first : Bool) : (entries : List (Key × Document)) →
    (addEntries out first entries).toList = out.toList ++ entryChars first entries
  | [] => by simp [addEntries, entryChars]
  | (key, d) :: rest => by
      rw [addEntries, entryChars, toList_addEntries, toList_add]
      cases first <;> simp [toList_addString]

end

/-! ## Reading values -/

/-- What stands behind a value does not continue a number. -/
def EndsValue (rest : List Char) : Prop := ∀ c ∈ rest.head?, isNumberPart c = false

/-- The characters of a document are read as that document. They do not begin
with a blank, nor with the bracket at the end of a list. -/
structure Reads (d : Document) : Prop where
  starts : ∃ c cs, chars d = c :: cs ∧ c ∉ [' ', '\n', '\t', '\r', ']']
  value : ∀ fuel rest, (chars d).length ≤ fuel → EndsValue rest →
    value? fuel (chars d ++ rest) = some (d, rest)

theorem endsValue_cons {c : Char} {rest : List Char} (h : isNumberPart c = false) :
    EndsValue (c :: rest) := by
  rintro _ ⟨⟩
  exact h

theorem skipBlank_cons {c : Char} {cs : List Char} (h : c ∉ [' ', '\n', '\t', '\r']) :
    skipBlank (c :: cs) = c :: cs := by
  rw [skipBlank, List.dropWhile_cons_of_neg]
  simpa [not_or, and_assoc] using h

theorem value?_number {fuel : Nat} {cs rest : List Char} {d : Document} (hne : cs ≠ [])
    (hparts : ∀ c ∈ cs, isNumberPart c = true) (hd : number? cs = some d) (hrest : EndsValue rest) :
    value? (fuel + 1) (cs ++ rest) = some (d, rest) := by
  have htake : (cs ++ rest).takeWhile isNumberPart = cs := by
    rw [List.takeWhile_append_of_pos hparts, List.append_right_eq_self]
    cases rest with
    | nil => rfl
    | cons c rest => exact List.takeWhile_cons_of_neg (by simp [hrest c rfl])
  have hdrop : (cs ++ rest).dropWhile isNumberPart = rest := by
    rw [List.dropWhile_append_of_pos hparts]
    cases rest with
    | nil => rfl
    | cons c rest => exact List.dropWhile_cons_of_neg (by simp [hrest c rfl])
  cases cs with
  | nil => exact absurd rfl hne
  | cons c cs =>
      have hc := hparts c List.mem_cons_self
      -- no other value begins with a part of a number
      have hother : c ∉ ['"', '[', '\x7b', 't', 'f', 'n'] := notMem_of_isNumberPart hc rfl
      simp only [List.mem_cons, not_or] at hother
      obtain ⟨hquote, hlist, hmap, htrue, hfalse, hnull, -⟩ := hother
      rw [List.cons_append] at htake hdrop ⊢
      rw [value?, skipBlank_cons (notMem_of_isNumberPart hc rfl)]
      simp only [List.cons.injEq, hquote, hlist, hmap, htrue, hfalse, hnull, false_and,
        IsEmpty.forall_iff, implies_true]
      show Option.map (fun d => (d, List.dropWhile isNumberPart _))
        (number? (List.takeWhile isNumberPart _)) = _
      rw [htake, hdrop, hd]
      rfl

/-- A document that has characters needs some fuel. -/
theorem Reads.of_succ {d : Document}
    (hstarts : ∃ c cs, chars d = c :: cs ∧ c ∉ [' ', '\n', '\t', '\r', ']'])
    (hvalue : ∀ fuel rest, (chars d).length ≤ fuel + 1 → EndsValue rest →
      value? (fuel + 1) (chars d ++ rest) = some (d, rest)) : Reads d where
  starts := hstarts
  value := by
    intro fuel rest hfuel hrest
    cases fuel with
    | zero =>
        obtain ⟨c, cs, hcs, -⟩ := hstarts
        simp [hcs] at hfuel
    | succ fuel => exact hvalue fuel rest hfuel hrest

theorem reads_null : Reads .null := .of_succ ⟨'n', _, rfl, by decide⟩ fun _ _ _ _ => rfl

theorem reads_bool (b : Bool) : Reads (.bool b) := by
  cases b with
  | false => exact .of_succ ⟨'f', _, rfl, by decide⟩ fun _ _ _ _ => rfl
  | true => exact .of_succ ⟨'t', _, rfl, by decide⟩ fun _ _ _ _ => rfl

theorem reads_int (i : Int) : Reads (.int i) := by
  have hne := toList_toString_ne_nil i
  obtain ⟨c, cs, hcs⟩ := List.exists_cons_of_ne_nil hne
  have hc := isNumberPart_of_mem_toString c (hcs ▸ List.mem_cons_self)
  refine .of_succ ⟨c, cs, by rw [chars, hcs], notMem_of_isNumberPart hc rfl⟩ ?_
  intro fuel rest _ hrest
  exact value?_number hne isNumberPart_of_mem_toString (number?_toString i) hrest

theorem reads_text (s : String) : Reads (.text s) := by
  refine .of_succ ⟨'"', _, rfl, by decide⟩ ?_
  intro fuel rest _ _
  rw [chars, quoted, List.cons_append, value?, skipBlank_cons (by decide)]
  simp [stringBody?_flatMap_escape]

/-! ## Lists -/

section

variable {fuel : Nat} {c : Char} {cs rest : List Char} {d : Document} {read items : List Document}

theorem value?_list (h : c ∉ [' ', '\n', '\t', '\r', ']']) :
    value? (fuel + 1) ('[' :: c :: cs) = items? fuel [] (c :: cs) := by
  simp only [List.mem_cons, not_or] at h
  rw [value?, skipBlank_cons (by decide)]
  simp only
  rw [skipBlank_cons (by simp [h])]
  simp only [List.cons.injEq, h, false_and, IsEmpty.forall_iff, implies_true]

theorem items?_last (h : value? fuel cs = some (d, ']' :: rest)) :
    items? (fuel + 1) read cs = some (.list (d :: read).reverse, rest) := by
  rw [items?, h]
  rfl

theorem items?_more (h : value? fuel cs = some (d, ',' :: rest)) :
    items? (fuel + 1) read cs = items? fuel (d :: read) rest := by
  rw [items?, h]
  rfl

theorem itemChars_cons_false (d : Document) (ds : List Document) :
    itemChars false (d :: ds) = ',' :: itemChars true (d :: ds) := by
  simp [itemChars]

/-- From the first item on the items are read one by one. -/
theorem items?_itemChars (h : ∀ d ∈ items, Reads d) (hne : items ≠ [])
    (hfuel : (itemChars true items).length < fuel) :
    items? fuel read (itemChars true items ++ ']' :: rest) =
      some (.list (read.reverse ++ items), rest) := by
  induction items generalizing fuel read with
  | nil => exact absurd rfl hne
  | cons d ds ih =>
      obtain ⟨hd, hds⟩ := List.forall_mem_cons.mp h
      obtain ⟨fuel, rfl⟩ := Nat.exists_eq_add_one.mpr (Nat.lt_of_le_of_lt (Nat.zero_le _) hfuel)
      have hlen : (chars d).length + (itemChars false ds).length ≤ fuel := by
        simpa [itemChars, Nat.lt_succ_iff] using hfuel
      have hsplit : itemChars true (d :: ds) ++ ']' :: rest =
          chars d ++ (itemChars false ds ++ ']' :: rest) := by
        simp [itemChars]
      rw [hsplit]
      cases ds with
      | nil =>
          have hlast := hd.value fuel (']' :: rest) (by omega) (endsValue_cons (by decide))
          rw [itemChars, List.nil_append, items?_last hlast, List.reverse_cons]
      | cons e es =>
          -- the comma takes part of the fuel that the item before it has left
          rw [itemChars_cons_false, List.length_cons] at hlen
          have hmore := hd.value fuel (',' :: (itemChars true (e :: es) ++ ']' :: rest)) (by omega)
            (endsValue_cons (by decide))
          rw [itemChars_cons_false, List.cons_append, items?_more hmore,
            ih hds (List.cons_ne_nil e es) (by omega), List.reverse_cons, List.append_assoc,
            List.singleton_append]

theorem reads_list (h : ∀ d ∈ items, Reads d) : Reads (.list items) := by
  refine .of_succ ⟨'[', _, rfl, by decide⟩ ?_
  intro fuel rest hfuel _
  rw [chars, List.cons_append, List.append_assoc, List.singleton_append]
  cases items with
  | nil => rfl
  | cons d ds =>
      have hlen : (itemChars true (d :: ds)).length < fuel := by
        simpa [chars, Nat.succ_le_iff] using hfuel
      obtain ⟨c, cs, hcs, hc⟩ := (h d List.mem_cons_self).starts
      obtain ⟨cs, hhead⟩ : ∃ cs, itemChars true (d :: ds) ++ ']' :: rest = c :: cs :=
        ⟨_, by rw [itemChars, hcs]; rfl⟩
      rw [hhead, value?_list hc, ← hhead, items?_itemChars h (List.cons_ne_nil d ds) hlen]
      rfl

end

/-! ## Maps -/

section

variable {fuel : Nat} {cs more rest name : List Char} {d : Document}
  {read : List (Key × Document)} {fields : List (String × Document)}

/-- An entry of a map from a field of a record. -/
def entry (f : String × Document) : Key × Document := (.text f.1, f.2)

theorem ofFields_eq (fields : List (String × Document)) :
    ofFields fields = .map (fields.map entry) := rfl

theorem value?_map : value? (fuel + 1) ('\x7b' :: '"' :: cs) = entries? fuel [] ('"' :: cs) := by
  rw [value?, skipBlank_cons (by decide)]
  simp only
  rw [skipBlank_cons (by decide)]
  rfl

theorem entries?_last (hname : stringBody? cs = some (name, ':' :: more))
    (h : value? fuel more = some (d, '\x7d' :: rest)) :
    entries? (fuel + 1) read ('"' :: cs) =
      some (.map (putEntry (String.ofList name) d read), rest) := by
  rw [entries?, skipBlank_cons (by decide)]
  simp [hname, skipBlank_cons, h]

theorem entries?_more (hname : stringBody? cs = some (name, ':' :: more))
    (h : value? fuel more = some (d, ',' :: rest)) :
    entries? (fuel + 1) read ('"' :: cs) =
      entries? fuel (putEntry (String.ofList name) d read) rest := by
  rw [entries?, skipBlank_cons (by decide)]
  simp [hname, skipBlank_cons, h]

theorem putEntry_of_new {name : String} (h : ∀ e ∈ read, e.1 ≠ .text name) :
    putEntry name d read = read ++ [(.text name, d)] := by
  have hnone : read.any (·.1 == .text name) = false := by
    simpa [List.any_eq_false] using h
  rw [putEntry, hnone]
  rfl

theorem entryChars_cons_false (f : String × Document) (fs : List (String × Document)) :
    entryChars false ((f :: fs).map entry) = ',' :: entryChars true ((f :: fs).map entry) := by
  simp [entryChars, entry]

/-- From the first entry on the entries are read one by one, and each of them
is new. -/
theorem entries?_entryChars (h : ∀ f ∈ fields, Reads f.2) (hne : fields ≠ [])
    (hnodup : (fields.map Prod.fst).Nodup) (hnew : ∀ f ∈ fields, ∀ e ∈ read, e.1 ≠ .text f.1)
    (hfuel : (entryChars true (fields.map entry)).length < fuel) :
    entries? fuel read (entryChars true (fields.map entry) ++ '\x7d' :: rest) =
      some (.map (read ++ fields.map entry), rest) := by
  induction fields generalizing fuel read with
  | nil => exact absurd rfl hne
  | cons f fs ih =>
      obtain ⟨hd, hds⟩ := List.forall_mem_cons.mp h
      obtain ⟨hname, hnodup⟩ := List.nodup_cons.mp hnodup
      obtain ⟨hput, hnew⟩ := List.forall_mem_cons.mp hnew
      obtain ⟨fuel, rfl⟩ := Nat.exists_eq_add_one.mpr (Nat.lt_of_le_of_lt (Nat.zero_le _) hfuel)
      have hlen : (chars f.2).length + (entryChars false (fs.map entry)).length ≤ fuel := by
        simp only [List.map_cons, entry, entryChars, List.length_append, List.length_cons] at hfuel
        omega
      have hsplit : entryChars true ((f :: fs).map entry) ++ '\x7d' :: rest =
          '"' :: (f.1.toList.flatMap escape ++ '"' :: ':' :: (chars f.2 ++
            (entryChars false (fs.map entry) ++ '\x7d' :: rest))) := by
        simp [entryChars, entry, quoted, keyText]
      have hkey := fun cs => stringBody?_flatMap_escape f.1.toList (':' :: (chars f.2 ++ cs))
      rw [hsplit]
      cases fs with
      | nil =>
          have hlast := hd.value fuel ('\x7d' :: rest) (by omega) (endsValue_cons (by decide))
          rw [List.map_nil, entryChars, List.nil_append, entries?_last (hkey _) hlast,
            String.ofList_toList, putEntry_of_new hput]
          rfl
      | cons g gs =>
          rw [entryChars_cons_false, List.length_cons] at hlen
          have hmore := hd.value fuel
            (',' :: (entryChars true ((g :: gs).map entry) ++ '\x7d' :: rest)) (by omega)
            (endsValue_cons (by decide))
          -- the entry that is put now has another name than those to come
          have hstillNew : ∀ x ∈ g :: gs, ∀ e ∈ read ++ [entry f], e.1 ≠ .text x.1 := by
            intro x hx e he
            rcases List.mem_append.mp he with he | he
            · exact hnew x hx e he
            · obtain rfl := List.mem_singleton.mp he
              intro heq
              exact hname (List.mem_map.mpr ⟨x, hx, (Key.text.inj heq).symm⟩)
          rw [entryChars_cons_false, List.cons_append, entries?_more (hkey _) hmore,
            String.ofList_toList, putEntry_of_new hput, ← entry,
            ih hds (List.cons_ne_nil g gs) hnodup hstillNew (by omega), List.append_assoc]
          rfl

theorem reads_ofFields (hnodup : (fields.map Prod.fst).Nodup) (h : ∀ f ∈ fields, Reads f.2) :
    Reads (ofFields fields) := by
  refine .of_succ ⟨'\x7b', _, rfl, by decide⟩ ?_
  intro fuel rest hfuel _
  rw [ofFields_eq] at hfuel ⊢
  rw [chars, List.cons_append, List.append_assoc, List.singleton_append]
  cases fields with
  | nil => rfl
  | cons f fs =>
      have hlen : (entryChars true ((f :: fs).map entry)).length < fuel := by
        simpa [chars, Nat.succ_le_iff] using hfuel
      obtain ⟨cs, hhead⟩ :
          ∃ cs, entryChars true ((f :: fs).map entry) ++ '\x7d' :: rest = '"' :: cs :=
        ⟨_, by rw [List.map_cons, entry, entryChars, quoted]; rfl⟩
      rw [hhead, value?_map, ← hhead,
        entries?_entryChars h (List.cons_ne_nil f fs) hnodup (by simp) hlen]
      rfl

end

end Document.Json

/-! ## Documents -/

namespace Document

/-- A document without floating numbers and moments, in which every map is a
record that has each field once. -/
inductive IsPlain : Document → Prop
  | null : IsPlain .null
  | bool (b : Bool) : IsPlain (.bool b)
  | int (i : Int) : IsPlain (.int i)
  | text (s : String) : IsPlain (.text s)
  | list {items : List Document} (h : ∀ d ∈ items, IsPlain d) : IsPlain (.list items)
  | ofFields {fields : List (String × Document)} (hnodup : (fields.map Prod.fst).Nodup)
      (h : ∀ f ∈ fields, IsPlain f.2) : IsPlain (ofFields fields)

theorem IsPlain.reads {d : Document} (h : d.IsPlain) : Json.Reads d := by
  induction h with
  | null => exact Json.reads_null
  | bool b => exact Json.reads_bool b
  | int i => exact Json.reads_int i
  | text s => exact Json.reads_text s
  | list _ ih => exact Json.reads_list ih
  | ofFields hnodup _ ih => exact Json.reads_ofFields hnodup ih

/-- The text of a plain document is read as that document. -/
theorem ofJson?_toJson {d : Document} (h : d.IsPlain) : ofJson? d.toJson = some d := by
  have hchars : d.toJson.toList = Json.chars d := by
    rw [toJson, Json.toList_add]
    rfl
  have hvalue := h.reads.value ((Json.chars d).length + 1) [] (Nat.le_succ _) (by rintro _ ⟨⟩)
  rw [List.append_nil] at hvalue
  unfold ofJson?
  simp only [hchars, hvalue]
  rfl

end Document

end LinkParse
