import LinkParse.Attempt
import LinkParse.Proofs.Spelling
import LinkParse.Rule.Codec
import Mathlib.Data.List.Forall2

/-!
# Reading back what was written

A record that is written with its fields, each once and each known, is read
as those fields (`Document.asRecord_ofFields`), a tagged one as its tag and
the others (`Document.asTagged_ofFields`). A list is read back exactly if
each of its items is (`Document.asList_map_eq_ok_iff`). Texts, names,
patterns and small numbers are read back as they are; a pattern since its
letters are not blank, so that nothing of it is cut off.
-/

namespace LinkParse

/-! ## Computations that can fail -/

section

variable {ε ε' α β : Type} {x : Except ε α} {f : α → Except ε β} {a : α} {b : β}

theorem mapError_eq_ok_iff {g : ε → ε'} : x.mapError g = .ok a ↔ x = .ok a := by
  cases x with
  | error e => simp [Except.mapError]
  | ok a => simp [Except.mapError]

theorem mapM_eq_ok_iff {xs : List α} {ys : List β} :
    xs.mapM f = .ok ys ↔ List.Forall₂ (fun x y => f x = .ok y) xs ys := by
  induction xs generalizing ys with
  | nil =>
      rw [List.forall₂_nil_left_iff]
      constructor
      · intro h
        cases h
        rfl
      · rintro rfl
        rfl
  | cons x xs ih =>
      rw [List.mapM_cons, bind_eq_ok_iff, List.forall₂_cons_left_iff]
      constructor
      · rintro ⟨y, hy, h⟩
        obtain ⟨rest, hrest, h⟩ := bind_eq_ok_iff.mp h
        cases h
        exact ⟨y, rest, hy, ih.mp hrest, rfl⟩
      · rintro ⟨y, rest, hy, hrest, rfl⟩
        exact ⟨y, hy, bind_eq_ok_iff.mpr ⟨rest, ih.mpr hrest, rfl⟩⟩

/-- What a list is read as comes from its items. -/
theorem exists_mem_of_mapM_eq_ok {xs : List α} {ys : List β} (h : xs.mapM f = .ok ys) :
    ∀ y ∈ ys, ∃ x ∈ xs, f x = .ok y := by
  rw [mapM_eq_ok_iff] at h
  induction h with
  | nil => simp
  | cons hy _ ih =>
      rw [List.forall_mem_cons]
      refine ⟨⟨_, List.mem_cons_self, hy⟩, fun z hz => ?_⟩
      obtain ⟨x, hx, hread⟩ := ih z hz
      exact ⟨x, List.mem_cons_of_mem _ hx, hread⟩

theorem exists_getElem?_of_mapM_eq_ok {xs : List α} {ys : List β} (h : xs.mapM f = .ok ys) {i : Nat}
    (hi : xs[i]? = some a) : ∃ y, ys[i]? = some y ∧ f a = .ok y := by
  rw [mapM_eq_ok_iff] at h
  induction h generalizing i with
  | nil => cases hi
  | cons hy _ ih =>
      cases i with
      | zero =>
          cases hi
          exact ⟨_, rfl, hy⟩
      | succ i => exact ih hi

end

/-! ## Patterns -/

namespace Pattern

theorem isBlank_of_mem {p : Pattern} {c : Char} (h : c ∈ p.text.toList) :
    Text.isBlank c = false := by
  rw [← List.takeWhile_append_dropWhile (p := isTagChar) (l := p.text.toList), List.mem_append] at h
  rcases h with h | h
  · exact Text.isBlank_of_isTagChar (p.isTagChar_of_mem_tag h)
  · exact Text.isBlank_of_isSubtypeChar (p.subtype_letters c h)

theorem parse_text (p : Pattern) : parse p.text = .ok p := by
  rw [parse, Text.trim, Text.trimChars_eq_self fun c hc => isBlank_of_mem hc, String.ofList_toList,
    make_text]

end Pattern

/-! ## Scalars and lists -/

namespace Document

variable {α : Type}

theorem asPattern_ofPattern (p : Pattern) : asPattern (ofPattern p) = .ok p := by
  unfold asPattern ofPattern
  rw [bind_eq_ok_iff]
  exact ⟨p.text, rfl, mapError_eq_ok_iff.mpr p.parse_text⟩

theorem asName_text {saysNothing : Document → Bool} {names : List (String × α)} {name : String}
    {a : α} (h : names.lookup name = some a) : asName saysNothing names (.text name) = .ok a := by
  unfold asName
  rw [bind_eq_ok_iff]
  refine ⟨name, rfl, ?_⟩
  dsimp only
  rw [h]

theorem asOption_asText (m : Option String) :
    asOption asText ((m.map Document.text).getD .null) = .ok m := by
  cases m with
  | none => rfl
  | some text => rfl

theorem fitsUnsigned_natCast_iff {bits n : Nat} :
    fitsUnsigned bits n = true ↔ n < Nat.pow 2 bits := by
  unfold fitsUnsigned
  rw [Bool.and_eq_true, decide_eq_true_iff, decide_eq_true_iff, Int.ofNat_lt]
  exact and_iff_right (Int.natCast_nonneg n)

theorem asNatural_int_iff {n : Nat} : asNatural (.int n) = .ok n ↔ n < Nat.pow 2 64 := by
  rw [← fitsUnsigned_natCast_iff, asNatural]
  constructor
  · intro h
    by_contra hnot
    rw [if_neg hnot] at h
    cases h
  · intro h
    rw [if_pos h, Int.toNat_natCast]

theorem lt_of_asNatural {d : Document} {n : Nat} (h : asNatural d = .ok n) : n < Nat.pow 2 64 := by
  cases d with
  | int i =>
      rw [asNatural] at h
      split at h
      · next hfits =>
        cases h
        have hnonneg : 0 ≤ i := by
          unfold fitsUnsigned at hfits
          simp only [Bool.and_eq_true, decide_eq_true_eq] at hfits
          exact hfits.1
        rwa [← fitsUnsigned_natCast_iff, Int.toNat_of_nonneg hnonneg]
      · cases h
  | _ => cases h

/-- What the items of a written list are read as, the list is read as. -/
theorem asList_map_eq_ok_map_iff {read : Document → Except Misfit α} {write : α → Document}
    {f : α → α} {xs : List α} :
    asList read (.list (xs.map write)) = .ok (xs.map f) ↔ ∀ x ∈ xs, read (write x) = .ok (f x) := by
  rw [asList, mapM_eq_ok_iff, List.forall₂_map_left_iff, List.forall₂_map_right_iff,
    List.forall₂_same]

/-- A list that was written is read back exactly if each of its items is. -/
theorem asList_map_eq_ok_iff {read : Document → Except Misfit α} {write : α → Document}
    {xs : List α} :
    asList read (.list (xs.map write)) = .ok xs ↔ ∀ x ∈ xs, read (write x) = .ok x := by
  have hread : asList read (.list (xs.map write)) = .ok (xs.map id) ↔
      ∀ x ∈ xs, read (write x) = .ok (id x) := asList_map_eq_ok_map_iff
  rwa [List.map_id] at hread

theorem asList_ofPatterns (ps : List Pattern) : asList asPattern (ofPatterns ps) = .ok ps :=
  asList_map_eq_ok_iff.mpr fun p _ => asPattern_ofPattern p

/-! ## Records -/

namespace Fields

variable {fields : Fields} {name other : String} {d : Document} {read : Document → Except Misfit α}
  {default : α}

@[simp] theorem required_cons_self : required ((name, d) :: fields) name read = read d := by
  rw [required, List.lookup_cons_self]

@[simp] theorem required_cons_of_ne (h : name ≠ other) :
    required ((other, d) :: fields) name read = required fields name read := by
  rw [required, List.lookup_cons, beq_eq_false_iff_ne.mpr h]
  rfl

@[simp] theorem optional_cons_self : optional ((name, d) :: fields) name default read = read d := by
  rw [optional, List.lookup_cons_self]

@[simp] theorem optional_cons_of_ne (h : name ≠ other) :
    optional ((other, d) :: fields) name default read = optional fields name default read := by
  rw [optional, List.lookup_cons, beq_eq_false_iff_ne.mpr h]
  rfl

theorem exists_of_required_eq_ok {a : α} (h : required fields name read = .ok a) :
    ∃ d, read d = .ok a := by
  unfold required at h
  split at h
  · next d _ => exact ⟨d, h⟩
  · cases h

theorem exists_of_optional_eq_ok {a : α} (h : optional fields name default read = .ok a) :
    a = default ∨ ∃ d, read d = .ok a := by
  unfold optional at h
  split at h
  · next d _ => exact .inr ⟨d, h⟩
  · cases h
    exact .inl rfl

end Fields

/-- The entries of a record are read one by one, with the fields that were read
before at hand. -/
theorem fieldsOf_foldlM {names : List String} {fields read : Fields}
    (hnodup : (fields.map Prod.fst).Nodup) (hknown : ∀ f ∈ fields, f.1 ∈ names)
    (hnew : ∀ f ∈ fields, read.lookup f.1 = none) :
    (fields.map fun (name, value) => (Key.text name, value)).foldlM (fun fields (key, value) => do
      match ← key.field? names with
      | some name => fields.add name value
      | none => .ok fields) read = .ok (fields.reverse ++ read) := by
  induction fields generalizing read with
  | nil => rfl
  | cons f fields ih =>
      obtain ⟨name, value⟩ := f
      rw [List.forall_mem_cons] at hknown hnew
      obtain ⟨hname, hnodup⟩ := List.nodup_cons.mp hnodup
      rw [List.map_cons, List.foldlM_cons, bind_eq_ok_iff]
      refine ⟨(name, value) :: read, ?_, ?_⟩
      · simp [Key.field?, Fields.add, hknown.1, hnew.1, bind, Except.bind]
      · -- the fields to come differ from those read before and from this one
        rw [ih hnodup hknown.2, List.reverse_cons, List.append_assoc, List.singleton_append]
        intro g hg
        have hne : g.1 ≠ name := fun heq => hname (List.mem_map.mpr ⟨g, hg, heq⟩)
        rw [List.lookup_cons, beq_eq_false_iff_ne.mpr hne]
        exact hnew.2 g hg

/-- A record is read as the fields with which it was written. -/
theorem asRecord_ofFields {names : List String} {fields : Fields}
    (hnodup : (fields.map Prod.fst).Nodup) (hknown : ∀ f ∈ fields, f.1 ∈ names) :
    (ofFields fields).asRecord names = .ok fields.reverse := by
  rw [← List.append_nil fields.reverse]
  exact fieldsOf_foldlM hnodup hknown fun _ _ => rfl

/-- A tagged record is read as its tag and the record of the other fields. -/
theorem asTagged_ofFields {tag : String} {fields : Fields} (h : "type" ∉ fields.map Prod.fst) :
    (ofFields (("type", .text tag) :: fields)).asTagged = .ok (tag, ofFields fields) := by
  let entry : String × Document → Key × Document := fun (name, value) => (.text name, value)
  have hkey : ∀ e ∈ fields.map entry, e.1 ≠ .text "type" := by
    intro e he heq
    obtain ⟨f, hf, rfl⟩ := List.mem_map.mp he
    exact h (List.mem_map.mpr ⟨f, hf, Key.text.inj heq⟩)
  have hnone : (fields.map entry).filter (·.1 == .text "type") = [] := by
    rw [List.filter_eq_nil_iff]
    intro e he heq
    exact hkey e he (beq_iff_eq.mp heq)
  have hall : (fields.map entry).filter (·.1 != .text "type") = fields.map entry := by
    rw [List.filter_eq_self]
    intro e he
    exact bne_iff_ne.mpr (hkey e he)
  rw [ofFields, List.map_cons, asTagged, List.filter_cons_of_pos (by simp), hnone,
    List.filter_cons_of_neg (by simp), hall]
  rfl

end Document

end LinkParse
