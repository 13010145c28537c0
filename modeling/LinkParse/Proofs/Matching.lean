import LinkParse.Connector
import LinkParse.Pattern
import Mathlib.Data.List.TakeWhile

/-!
# Which labels a pattern accepts

The loop over the bytes of a pattern and a label comes to two conditions
(`acceptsBytes_iff`): the capitals at the start of the label are those of
the pattern, and what the label has behind them fits the pattern's
subtypes, position by position.

A pattern is spelled in ASCII, so each of its letters is one byte, and the
two conditions can be stated of its tag and its subtypes (`accepts_iff`),
whatever characters the label has.
-/

namespace LinkParse

/-! ## ASCII texts as bytes -/

namespace Text

theorem toNat_toUInt8 {c : Char} (h : c.toNat < 128) : c.toUInt8.toNat = c.toNat := by
  show c.val.toUInt8.toNat = c.val.toNat
  rw [UInt32.toNat_toUInt8]
  exact Nat.mod_eq_of_lt (Nat.lt_trans h (by decide))

theorem toUInt8_inj {c d : Char} (hc : c.toNat < 128) (hd : d.toNat < 128)
    (h : c.toUInt8 = d.toUInt8) : c = d := by
  have hnat : c.toNat = d.toNat := by rw [← toNat_toUInt8 hc, ← toNat_toUInt8 hd, h]
  exact Char.ext (UInt32.toNat_inj.mp hnat)

theorem map_toUInt8_inj : ∀ {cs ds : List Char}, (∀ c ∈ cs, c.toNat < 128) →
    (∀ d ∈ ds, d.toNat < 128) → cs.map Char.toUInt8 = ds.map Char.toUInt8 → cs = ds
  | [], [], _, _, _ => rfl
  | c :: cs, d :: ds, hcs, hds, h => by
      rw [List.forall_mem_cons] at hcs hds
      rw [List.map_cons, List.map_cons, List.cons.injEq] at h
      rw [toUInt8_inj hcs.1 hds.1 h.1, map_toUInt8_inj hcs.2 hds.2 h.2]

theorem utf8EncodeChar_of_lt {c : Char} (h : c.toNat < 128) :
    String.utf8EncodeChar c = [c.toUInt8] :=
  String.utf8EncodeChar_eq_singleton (Char.utf8Size_eq_one_iff.mpr (UInt32.le_iff_toNat_le.mpr
    (Nat.le_of_lt_succ h)))

theorem flatMap_utf8EncodeChar : ∀ {cs : List Char}, (∀ c ∈ cs, c.toNat < 128) →
    cs.flatMap String.utf8EncodeChar = cs.map Char.toUInt8
  | [], _ => rfl
  | c :: cs, h => by
      rw [List.forall_mem_cons] at h
      rw [List.flatMap_cons, utf8EncodeChar_of_lt h.1, flatMap_utf8EncodeChar h.2]
      rfl

end Text

theorem lt_of_isTagChar {c : Char} (h : isTagChar c = true) : c.toNat < 128 := by
  have hrange := isTagChar_iff.mp h
  omega

theorem lt_of_isSubtypeChar {c : Char} (h : isSubtypeChar c = true) : c.toNat < 128 := by
  rcases isSubtypeChar_iff.mp h with hrange | rfl
  · omega
  · decide

namespace Pattern

open Text

theorem isTagByte_toUInt8 {c : Char} (h : c.toNat < 128) :
    isTagByte c.toUInt8 = isTagChar c := by
  rw [Bool.eq_iff_iff, isTagChar_iff, ← toNat_toUInt8 h]
  simp [isTagByte, UInt8.le_iff_toNat_le]

theorem toUInt8_eq_wildcardByte_iff {c : Char} (h : c.toNat < 128) :
    c.toUInt8 = wildcardByte ↔ c = wildcard := by
  constructor
  · intro heq
    exact toUInt8_inj h (show wildcard.toNat < 128 by decide) heq
  · rintro rfl
    rfl

/-! ## The two parts of matching -/

/-- One position of the subtype part. -/
theorem acceptsSubtypes_cons {p : UInt8} {ps ts : List UInt8} :
    acceptsSubtypes (p :: ps) ts = true ↔
      (p = wildcardByte ∨ ts.head? = some p) ∧ acceptsSubtypes ps ts.tail = true := by
  cases ts with
  | nil => simp [acceptsSubtypes]
  | cons t ts => simp only [acceptsSubtypes, Bool.and_eq_true, Bool.or_eq_true, beq_iff_eq,
      List.head?_cons, Option.some.injEq, List.tail_cons, eq_comm (a := t)]

theorem acceptsSubtypes_self : ∀ ps : List UInt8, acceptsSubtypes ps ps = true
  | [] => rfl
  | _ :: ps => acceptsSubtypes_cons.mpr ⟨.inr rfl, acceptsSubtypes_self ps⟩

/-- The loop takes off the same capitals from both sides, and then compares
what is left of them. -/
theorem acceptsBytes_iff (ps ts : List UInt8) : acceptsBytes ps ts = true ↔
    ps.takeWhile isTagByte = ts.takeWhile isTagByte ∧
      acceptsSubtypes (ps.dropWhile isTagByte) (ts.dropWhile isTagByte) = true := by
  induction ps generalizing ts with
  | nil =>
      cases ts with
      | nil => simp [acceptsBytes, acceptsSubtypes]
      | cons t ts => cases ht : isTagByte t <;> simp [acceptsBytes, acceptsSubtypes, ht]
  | cons p ps ih =>
      cases ts with
      | nil => cases hp : isTagByte p <;> simp [acceptsBytes, hp]
      | cons t ts =>
          by_cases hpt : p = t
          · subst hpt
            cases hp : isTagByte p with
            | true => simp [acceptsBytes, hp, ih ts]
            | false => simp [acceptsBytes, hp]
          · cases hp : isTagByte p <;> cases ht : isTagByte t <;>
              simp [acceptsBytes, hp, ht, hpt]

/-! ## Tag and subtypes of a pattern -/

def tag (p : Pattern) : List Char := p.text.toList.takeWhile isTagChar

def subtypes (p : Pattern) : List Char := p.text.toList.dropWhile isTagChar

variable {p : Pattern} {label : String}

theorem isTagChar_of_mem_tag {c : Char} (h : c ∈ p.tag) : isTagChar c = true :=
  List.all_eq_true.mp List.all_takeWhile c h

theorem bytes_text (p : Pattern) :
    bytes p.text = p.tag.map Char.toUInt8 ++ p.subtypes.map Char.toUInt8 := by
  have hletters : ∀ c ∈ p.text.toList, c.toNat < 128 := by
    intro c hc
    rw [← List.takeWhile_append_dropWhile (p := isTagChar) (l := p.text.toList)] at hc
    rcases List.mem_append.mp hc with hc | hc
    · exact lt_of_isTagChar (isTagChar_of_mem_tag hc)
    · exact lt_of_isSubtypeChar (p.subtype_letters c hc)
  unfold bytes tag subtypes
  rw [flatMap_utf8EncodeChar hletters, ← List.map_append, List.takeWhile_append_dropWhile]

theorem isTagByte_of_mem_tag : ∀ b ∈ p.tag.map Char.toUInt8, isTagByte b = true := by
  intro b hb
  obtain ⟨c, hc, rfl⟩ := List.mem_map.mp hb
  have hletter := isTagChar_of_mem_tag hc
  rw [isTagByte_toUInt8 (lt_of_isTagChar hletter), hletter]

theorem isTagByte_of_mem_subtypes : ∀ b ∈ p.subtypes.map Char.toUInt8, isTagByte b = false := by
  intro b hb
  obtain ⟨c, hc, rfl⟩ := List.mem_map.mp hb
  have hletter := p.subtype_letters c hc
  rw [isTagByte_toUInt8 (lt_of_isSubtypeChar hletter), ← Bool.not_eq_true]
  intro htag
  rw [isSubtypeChar_of_isTagChar htag] at hletter
  cases hletter

theorem takeWhile_bytes_text (p : Pattern) :
    (bytes p.text).takeWhile isTagByte = p.tag.map Char.toUInt8 := by
  have hnone : (p.subtypes.map Char.toUInt8).takeWhile isTagByte = [] := by
    rw [List.takeWhile_eq_nil_iff]
    intro hl
    rw [isTagByte_of_mem_subtypes _ (List.get_mem _ _)]
    exact Bool.false_ne_true
  rw [bytes_text, List.takeWhile_append_of_pos isTagByte_of_mem_tag, hnone, List.append_nil]

theorem dropWhile_bytes_text (p : Pattern) :
    (bytes p.text).dropWhile isTagByte = p.subtypes.map Char.toUInt8 := by
  rw [bytes_text, List.dropWhile_append_of_pos isTagByte_of_mem_tag, List.dropWhile_eq_self_iff]
  intro hl
  rw [isTagByte_of_mem_subtypes _ (List.getElem_mem hl)]
  exact Bool.false_ne_true

/-- A pattern accepts a label with its own tag whose other bytes fit its
subtypes. -/
theorem accepts_iff : p.accepts label = true ↔
    (bytes label).takeWhile isTagByte = p.tag.map Char.toUInt8 ∧
      acceptsSubtypes (p.subtypes.map Char.toUInt8) ((bytes label).dropWhile isTagByte) = true := by
  unfold accepts
  rw [acceptsBytes_iff, takeWhile_bytes_text, dropWhile_bytes_text, eq_comm]

/-- Read as a label, a pattern is accepted by itself. -/
theorem accepts_text (p : Pattern) : p.accepts p.text = true := by
  rw [accepts_iff, takeWhile_bytes_text, dropWhile_bytes_text]
  exact ⟨rfl, acceptsSubtypes_self _⟩

end Pattern

/-! ## Bodies of connectors as patterns -/

namespace Connector

variable {c : Connector}

theorem toList_body (c : Connector) : c.body.toList = c.tag.toList ++ c.subtypes := by
  rw [body, String.toList_append, String.toList_ofList]

theorem takeWhile_body (c : Connector) : c.body.toList.takeWhile isTagChar = c.tag.toList := by
  have hnone : c.subtypes.takeWhile isTagChar = [] := by
    rw [List.takeWhile_eq_nil_iff]
    intro hl htag
    have hletter := c.subtype_letters _ (List.get_mem c.subtypes ⟨0, hl⟩)
    rw [isSubtypeChar_of_isTagChar htag] at hletter
    cases hletter
  rw [toList_body, List.takeWhile_append_of_pos c.tag_letters, hnone, List.append_nil]

theorem dropWhile_body (c : Connector) : c.body.toList.dropWhile isTagChar = c.subtypes := by
  have hsplit : c.tag.toList ++ c.body.toList.dropWhile isTagChar = c.body.toList :=
    c.takeWhile_body ▸ List.takeWhile_append_dropWhile
  exact List.append_cancel_left (hsplit.trans c.toList_body)

/-- The pattern that is spelled like a connector. -/
def pattern (c : Connector) : Pattern where
  text := c.body
  starts_with_tag := by
    rw [toList_body]
    cases htag : c.tag.toList with
    | nil => exact absurd htag c.tag_ne_nil
    | cons first rest =>
        exact c.tag_letters first (htag ▸ List.mem_cons_self)
  subtype_letters := by
    rw [dropWhile_body]
    exact c.subtype_letters

@[simp] theorem tag_pattern (c : Connector) : c.pattern.tag = c.tag.toList := c.takeWhile_body

@[simp] theorem subtypes_pattern (c : Connector) : c.pattern.subtypes = c.subtypes :=
  c.dropWhile_body

end Connector

/-- Making a pattern of its own text gives the pattern back. -/
theorem Pattern.make_text (p : Pattern) : Pattern.make p.text = .ok p := by
  unfold make
  rw [dif_pos p.starts_with_tag]
  split
  · next c hc =>
    have hletter := p.subtype_letters c (List.mem_of_find?_eq_some hc)
    have hwrong := List.find?_some hc
    rw [hletter] at hwrong
    cases hwrong
  · rfl

end LinkParse
