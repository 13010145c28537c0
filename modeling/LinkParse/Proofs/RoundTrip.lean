import LinkParse.Proofs.Json
import LinkParse.Proofs.Validity

/-!
# Rule sets that survive being written

What is written for a starter, a check or a rule is read back as it was, one
kind of value after the other. Two things can be lost on the way: a rule whose
name is not the one that its text is read as, such as a name that begins with
a blank, and a count beyond the numbers of a document. Without these a rule
set that can be used comes back as it was written, and with them it does not
(`RuleSet.load_written_iff`).
-/

namespace LinkParse

open Document

/-! ## Names -/

theorem Reach.lookup_name (r : Reach) : names.lookup r.name = some r := by cases r <;> rfl

theorem Placement.lookup_name (p : Placement) : names.lookup p.name = some p := by cases p <;> rfl

theorem Scope.lookup_name (s : Scope) : names.lookup s.name = some s := by cases s <;> rfl

theorem Requirement.lookup_name (r : Requirement) : names.lookup r.name = some r := by
  cases r <;> rfl

/-! ## Starters -/

theorem Starter.ofDocument_toDocument (format : Format) (s : Starter) :
    Starter.ofDocument format s.toDocument = .ok s := by
  obtain ⟨pattern, domain, reach⟩ := s
  rw [ofDocument, toDocument, asRecord_ofFields (by simp) (by simp [layout, Layout.names])]
  simp [ok_bind, pure_eq_ok, asText, asPattern_ofPattern, asName_text (Reach.lookup_name reach)]

/-! ## Checks -/

namespace Check

/-- A count that the check has is one of the whole numbers of a document, which
are those of 64 bits. -/
def FitsDocument : Check → Prop
  | .minimumLinks count => count < Nat.pow 2 64
  | _ => True

variable {c : Check}

theorem asTagged_toDocument (c : Check) : c.toDocument.asTagged = .ok (c.tag, ofFields c.fields) :=
  asTagged_ofFields (by cases c <;> simp [fields])

/-- The fields behind a tag are read as the check that they are of. -/
theorem ofTagged_fields_iff : ofTagged c.tag (ofFields c.fields) = .ok c ↔ c.FitsDocument := by
  cases c with
  | containment domain allow =>
      simp only [ofTagged, tag, fields, FitsDocument, iff_true]
      rw [asRecord_ofFields (by simp) (by simp)]
      simp [ok_bind, pure_eq_ok, asText, asList_ofPatterns]
  | bounded domain =>
      simp only [ofTagged, tag, fields, FitsDocument, iff_true]
      rw [asRecord_ofFields (by simp) (by simp)]
      simp [ok_bind, pure_eq_ok, asText]
  | ordering selector anchor placement =>
      simp only [ofTagged, tag, fields, FitsDocument, iff_true]
      rw [asRecord_ofFields (by simp) (by simp)]
      simp [ok_bind, pure_eq_ok, asPattern_ofPattern, asName_text placement.lookup_name]
  | companion selector companions scope requirement =>
      simp only [ofTagged, tag, fields, FitsDocument, iff_true]
      rw [asRecord_ofFields (by simp) (by simp)]
      simp [ok_bind, pure_eq_ok, asPattern_ofPattern, asList_ofPatterns,
        asName_text scope.lookup_name, asName_text requirement.lookup_name]
  | cycle selector =>
      simp only [ofTagged, tag, fields, FitsDocument, iff_true]
      rw [asRecord_ofFields (by simp) (by simp)]
      simp [ok_bind, pure_eq_ok, asPattern_ofPattern]
  | connected =>
      simp only [ofTagged, tag, fields, FitsDocument, iff_true]
      rfl
  | minimumLinks count =>
      simp only [ofTagged, tag, fields, FitsDocument]
      rw [← asNatural_int_iff, asRecord_ofFields (by simp) (by simp), ok_bind, bind_eq_ok_iff]
      simp [pure_eq_ok]

theorem ofDocument_toDocument_iff : Check.ofDocument c.toDocument = .ok c ↔ c.FitsDocument := by
  rw [ofDocument, asTagged_toDocument]
  exact ofTagged_fields_iff

end Check

/-! ## Rules -/

theorem RuleRef.ofDocument_text_iff {s : String} {r : RuleRef} :
    RuleRef.ofDocument (.text s) = .ok r ↔ RuleRef.parse s = .ok r := by
  rw [ofDocument, asText, ok_bind, mapError_eq_ok_iff]

theorem Rule.ofDocument_toDocument {r : Rule} {id : RuleRef}
    (hid : RuleRef.ofDocument (.text r.id.text) = .ok id)
    (hcheck : Check.ofDocument r.check.toDocument = .ok r.check) :
    Rule.ofDocument r.toDocument = .ok { r with id } := by
  rw [ofDocument, toDocument, asRecord_ofFields (by simp) (by simp [layout, Layout.names]), ok_bind]
  simp [ok_bind, pure_eq_ok, hid, hcheck, asOption_asText]

theorem Rule.ofDocument_toDocument_iff {r : Rule} : Rule.ofDocument r.toDocument = .ok r ↔
    RuleRef.parse r.id.text = .ok r.id ∧ r.check.FitsDocument := by
  rw [← RuleRef.ofDocument_text_iff, ← Check.ofDocument_toDocument_iff]
  constructor
  · intro h
    obtain ⟨id, message, check⟩ := r
    rw [ofDocument, toDocument, asRecord_ofFields (by simp) (by simp [layout, Layout.names]),
      ok_bind] at h
    obtain ⟨readId, hid, h⟩ := bind_eq_ok_iff.mp h
    obtain ⟨readMessage, -, h⟩ := bind_eq_ok_iff.mp h
    obtain ⟨readCheck, hcheck, h⟩ := bind_eq_ok_iff.mp h
    obtain ⟨rfl, rfl, rfl⟩ := Rule.mk.inj (Except.ok.inj h)
    exact ⟨by simpa using hid, by simpa using hcheck⟩
  · rintro ⟨hid, hcheck⟩
    exact ofDocument_toDocument hid hcheck

/-! ## Rule sets -/

namespace RuleSet

variable {s : RuleSet}

/-- The starters of a written set are read back in any case. -/
theorem ofDocument_toDocument_eq_ok_iff {format : Format} {rules : List Rule} :
    RuleSet.ofDocument format s.toDocument = .ok ⟨s.starters, rules⟩ ↔
      asList Rule.ofDocument (.list (s.rules.map Rule.toDocument)) = .ok rules := by
  have hstarters : asList (Starter.ofDocument format) (.list (s.starters.map Starter.toDocument)) =
      .ok s.starters :=
    asList_map_eq_ok_iff.mpr fun s _ => s.ofDocument_toDocument format
  rw [ofDocument, toDocument, asRecord_ofFields (by simp) (by simp [layout, Layout.names]), ok_bind]
  simp only [List.reverse_cons, List.reverse_nil, List.nil_append, List.cons_append]
  rw [Fields.optional_cons_of_ne (by simp), Fields.optional_cons_self, hstarters, ok_bind,
    Fields.optional_cons_self, bind_eq_ok_iff]
  simp [pure_eq_ok]

theorem ofDocument_toDocument_iff {format : Format} :
    RuleSet.ofDocument format s.toDocument = .ok s ↔ ∀ rule ∈ s.rules,
      RuleRef.parse rule.id.text = .ok rule.id ∧ rule.check.FitsDocument := by
  simp_rw [← Rule.ofDocument_toDocument_iff]
  exact ofDocument_toDocument_eq_ok_iff.trans asList_map_eq_ok_iff

end RuleSet

/-! ## Written documents are plain -/

theorem Document.isPlain_ofPatterns (ps : List Pattern) : (ofPatterns ps).IsPlain := by
  refine .list fun d hd => ?_
  obtain ⟨p, -, rfl⟩ := List.mem_map.mp hd
  exact .text p.text

theorem Starter.isPlain_toDocument (s : Starter) : s.toDocument.IsPlain :=
  .ofFields (by simp) (by simp [ofPattern, IsPlain.text])

theorem Check.isPlain_toDocument (c : Check) : c.toDocument.IsPlain := by
  refine .ofFields (by cases c <;> simp [fields]) (List.forall_mem_cons.mpr ⟨.text c.tag, ?_⟩)
  cases c <;> simp [fields, ofPattern, isPlain_ofPatterns, IsPlain.text, IsPlain.int]

theorem Rule.isPlain_toDocument (r : Rule) : r.toDocument.IsPlain := by
  have hmessage : ((r.message.map Document.text).getD .null).IsPlain := by
    cases r.message with
    | none => exact .null
    | some message => exact .text message
  exact .ofFields (by simp) (by simp [IsPlain.text, hmessage, Check.isPlain_toDocument])

theorem RuleSet.isPlain_toDocument (s : RuleSet) : s.toDocument.IsPlain := by
  refine .ofFields (by simp) ?_
  simp only [List.forall_mem_cons]
  refine ⟨.list fun d hd => ?_, .list fun d hd => ?_, by simp⟩
  · obtain ⟨starter, -, rfl⟩ := List.mem_map.mp hd
    exact starter.isPlain_toDocument
  · obtain ⟨rule, -, rfl⟩ := List.mem_map.mp hd
    exact rule.isPlain_toDocument

/-! ## Writing and reading again -/

namespace RuleSet

variable {s : RuleSet}

/-- The set can be used, its names are read from their texts as they are, and
its counts are numbers of a document. -/
structure IsStorable (s : RuleSet) : Prop where
  usable : s.fault? = none
  names : ∀ rule ∈ s.rules, RuleRef.parse rule.id.text = .ok rule.id
  counts : ∀ rule ∈ s.rules, rule.check.FitsDocument

theorem load_toDocument_iff_isStorable {format : Format} :
    load format s.toDocument = .ok s ↔ s.IsStorable := by
  rw [load_eq_ok_iff, ofDocument_toDocument_iff]
  constructor
  · rintro ⟨hrules, husable⟩
    exact ⟨husable, fun r hr => (hrules r hr).1, fun r hr => (hrules r hr).2⟩
  · rintro ⟨husable, hnames, hcounts⟩
    exact ⟨fun r hr => ⟨hnames r hr, hcounts r hr⟩, husable⟩

theorem loadText_toJson (s : RuleSet) :
    loadText .json s.toDocument.toJson = load .json s.toDocument := by
  rw [loadText, Document.ofText?, ofJson?_toJson s.isPlain_toDocument]

/-- A rule set that is written as a JSON document, or as the text of it, is
loaded from there again exactly if it can be used, its names are read from
their texts as they are, and its counts are numbers of a document. -/
theorem load_written_iff (s : RuleSet) :
    (load .json s.toDocument = .ok s ↔ s.IsStorable) ∧
      (loadText .json s.toDocument.toJson = .ok s ↔ s.IsStorable) := by
  rw [loadText_toJson, load_toDocument_iff_isStorable]
  exact ⟨Iff.rfl, Iff.rfl⟩

/-- A rule whose name begins with a blank comes back under another name. -/
example : load .json (toDocument ⟨[], [{ id := ⟨"", " links"⟩, check := .connected }]⟩) =
    .ok ⟨[], [{ id := ⟨"", "links"⟩, check := .connected }]⟩ := by
  decide +kernel

end RuleSet

end LinkParse
