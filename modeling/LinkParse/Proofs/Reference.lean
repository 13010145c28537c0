import LinkParse.RuleRef
import Mathlib.Data.List.Basic

/-!
# Texts of rule references

A reference that is read has no slash in its name, since the last slash
separates the name from the group (`RuleRef.parse_eq_ok_iff`). So its text
can be taken apart again, and different references have different texts
(`RuleRef.eq_of_text_eq`), also where groups hold slashes or are empty.
-/

namespace LinkParse

namespace RuleRef

variable {cs before after : List Char} {a b r : RuleRef} {s : String}

/-! ## The last slash -/

theorem splitLastSlash_eq_none_iff : splitLastSlash cs = none ↔ '/' ∉ cs := by
  induction cs with
  | nil => simp [splitLastSlash]
  | cons c cs ih =>
      rw [List.mem_cons, not_or, ← ih, splitLastSlash]
      cases splitLastSlash cs with
      | some parts => simp
      | none => simp [eq_comm]

theorem splitLastSlash_append (h : '/' ∉ after) :
    splitLastSlash (before ++ '/' :: after) = some (before, after) := by
  induction before with
  | nil => simp [splitLastSlash, splitLastSlash_eq_none_iff.mpr h]
  | cons c before ih => simp [splitLastSlash, ih]

theorem splitLastSlash_eq_some_iff :
    splitLastSlash cs = some (before, after) ↔ cs = before ++ '/' :: after ∧ '/' ∉ after := by
  constructor
  · intro h
    induction cs generalizing before with
    | nil => simp [splitLastSlash] at h
    | cons c cs ih =>
        rw [splitLastSlash] at h
        cases hsplit : splitLastSlash cs with
        | some parts =>
            rw [hsplit] at h
            obtain ⟨rfl, rfl⟩ := Prod.mk.inj (Option.some.inj h)
            obtain ⟨rfl, hafter⟩ := ih hsplit
            exact ⟨rfl, hafter⟩
        | none =>
            rw [hsplit] at h
            obtain ⟨rfl, hparts⟩ := Option.ite_none_right_eq_some.mp h
            obtain ⟨rfl, rfl⟩ := Prod.mk.inj (Option.some.inj hparts)
            exact ⟨rfl, splitLastSlash_eq_none_iff.mp hsplit⟩
  · rintro ⟨rfl, hafter⟩
    exact splitLastSlash_append hafter

/-- The two parts of a text: without a slash all of it is behind the last
one. -/
theorem getD_splitLastSlash_eq_iff : (splitLastSlash cs).getD ([], cs) = (before, after) ↔
    '/' ∉ after ∧ (cs = before ++ '/' :: after ∨ before = [] ∧ cs = after) := by
  cases hsplit : splitLastSlash cs with
  | some parts =>
      obtain ⟨group, name⟩ := parts
      have hcs := splitLastSlash_eq_some_iff.mp hsplit
      rw [Option.getD_some]
      constructor
      · intro h
        obtain ⟨rfl, rfl⟩ := Prod.mk.inj h
        exact ⟨hcs.2, .inl hcs.1⟩
      · rintro ⟨hafter, rfl | ⟨rfl, rfl⟩⟩
        · exact Option.some.inj (hsplit.symm.trans (splitLastSlash_append hafter))
        · rw [splitLastSlash_eq_none_iff.mpr hafter] at hsplit
          cases hsplit
  | none =>
      have hcs := splitLastSlash_eq_none_iff.mp hsplit
      rw [Option.getD_none]
      constructor
      · intro h
        obtain ⟨rfl, rfl⟩ := Prod.mk.inj h
        exact ⟨hcs, .inr ⟨rfl, rfl⟩⟩
      · rintro ⟨-, rfl | ⟨rfl, rfl⟩⟩
        · exact absurd (by simp) hcs
        · rfl

/-! ## Reading -/

/-- What is read from a text without its blank ends: a name without a slash,
and the group in front of a slash, if there is one. -/
theorem parse_eq_ok_iff : parse s = .ok r ↔ r.name.toList ≠ [] ∧ '/' ∉ r.name.toList ∧
    (Text.trimChars s.toList = r.group.toList ++ '/' :: r.name.toList ∨
      r.group.toList = [] ∧ Text.trimChars s.toList = r.name.toList) := by
  rw [← getD_splitLastSlash_eq_iff]
  obtain ⟨group, name⟩ := r
  simp only [parse]
  generalize (splitLastSlash (Text.trimChars s.toList)).getD ([], Text.trimChars s.toList) = parts
  obtain ⟨before, after⟩ := parts
  rw [Prod.mk.injEq]
  cases after with
  | nil =>
      constructor
      · intro h
        cases h
      · rintro ⟨hne, -, hname⟩
        exact absurd hname.symm hne
  | cons c cs =>
      constructor
      · intro h
        obtain ⟨rfl, rfl⟩ := RuleRef.mk.inj (Except.ok.inj h)
        simp
      · rintro ⟨-, rfl, hname⟩
        have hname' : name = String.ofList (c :: cs) := by rw [hname, String.ofList_toList]
        subst hname'
        simp

theorem slash_notMem_name (h : parse s = .ok r) : '/' ∉ r.name.toList :=
  (parse_eq_ok_iff.mp h).2.1

/-! ## Writing -/

theorem toList_text (r : RuleRef) : r.text.toList =
    if r.group.toList = [] then r.name.toList else r.group.toList ++ '/' :: r.name.toList := by
  unfold text
  by_cases hgroup : r.group = ""
  · simp [hgroup]
  · simp [hgroup]

/-- The parts of a reference whose name has no slash are those of its text. -/
theorem getD_splitLastSlash_text (h : '/' ∉ r.name.toList) :
    (splitLastSlash r.text.toList).getD ([], r.text.toList) = (r.group.toList, r.name.toList) := by
  rw [getD_splitLastSlash_eq_iff, toList_text]
  refine ⟨h, ?_⟩
  split
  · next hgroup => exact .inr ⟨hgroup, rfl⟩
  · exact .inl rfl

theorem eq_of_text_eq (ha : '/' ∉ a.name.toList) (hb : '/' ∉ b.name.toList)
    (h : a.text = b.text) : a = b := by
  have hparts := getD_splitLastSlash_text ha
  rw [h, getD_splitLastSlash_text hb, Prod.mk.injEq, String.toList_inj, String.toList_inj] at hparts
  obtain ⟨group, name⟩ := a
  obtain ⟨rfl, rfl⟩ := hparts
  rfl

/-- With slashes in their names different references may have one text. -/
example : text ⟨"a", "b/c"⟩ = text ⟨"a/b", "c"⟩ := by decide

end RuleRef

end LinkParse
