import LinkParse.Proofs.Naming
import LinkParse.Proofs.RoundTrip

/-!
# Names that change when they are written

Blank ends are cut off a text before it is split, so in `/ x` the blank behind
the slash belongs to the name. The group is empty, and an empty group is
written without its slash: then the blank is at the end of the text, and the
next reader cuts it off. This is the only way in which a name that was read
comes back as another one (`RuleRef.parse_text_eq_ok_iff`).

A rule set that was read from a document can therefore be written and read
again, and what has changed then are the names of such rules
(`RuleSet.ofDocument_toDocument`). With one of them among its rules a rule set
does not survive, and without them it does (`RuleSet.names_survive_iff`).
-/

namespace LinkParse

/-! ## References -/

namespace RuleRef

variable {r : RuleRef} {s : String}

/-- The reference that the text of a reference is read as, if the reference was
itself read from some text. -/
def reread (r : RuleRef) : RuleRef :=
  if r.group.isEmpty then { r with name := Text.trim r.name } else r

/-- No group stands in front of the name, which begins with a blank. -/
structure LosesBlank (r : RuleRef) : Prop where
  group : r.group = ""
  name : ∃ c cs, r.name.toList = c :: cs ∧ Text.isBlank c = true

/-- The name ends where the text ended from which it was read. -/
theorem isBlank_getLast?_name (h : parse s = .ok r) :
    ∀ c ∈ r.name.toList.getLast?, Text.isBlank c = false := by
  obtain ⟨hne, -, hparts⟩ := parse_eq_ok_iff.mp h
  have hlast := (Text.isTrimmed_trimChars s.toList).last
  rcases hparts with hparts | ⟨-, hparts⟩
  · rwa [hparts, List.getLast?_append_cons, List.getLast?_cons_of_ne_nil hne] at hlast
  · rwa [hparts] at hlast

theorem parse_text_of_group_ne_nil (h : parse s = .ok r) (hgroup : r.group.toList ≠ []) :
    parse r.text = .ok r := by
  obtain ⟨hne, hslash, hparts⟩ := parse_eq_ok_iff.mp h
  have htext : r.text.toList = Text.trimChars s.toList := by
    rw [toList_text, if_neg hgroup]
    exact (hparts.resolve_right fun hparts => hgroup hparts.1).symm
  rw [parse_eq_ok_iff, htext, Text.trimChars_eq_self_iff.mpr (Text.isTrimmed_trimChars _)]
  exact ⟨hne, hslash, hparts⟩

/-- Without a group the text is the name alone, of which the blanks in front are
lost. -/
theorem parse_text_of_group_eq_nil (h : parse s = .ok r) (hgroup : r.group.toList = []) :
    parse r.text = .ok { r with name := Text.trim r.name } := by
  obtain ⟨hne, hslash, -⟩ := parse_eq_ok_iff.mp h
  have htext : r.text.toList = r.name.toList := by rw [toList_text, if_pos hgroup]
  have hlast := List.getLast?_eq_some_getLast hne
  rw [parse_eq_ok_iff, htext, Text.toList_trim]
  exact ⟨Text.trimChars_ne_nil (List.getLast_mem hne) (isBlank_getLast?_name h _ hlast),
    fun hmem => hslash (Text.trimChars_subset _ hmem), .inr ⟨hgroup, rfl⟩⟩

theorem parse_text_of_parse (h : parse s = .ok r) : parse r.text = .ok r.reread := by
  unfold reread
  split
  · next hgroup =>
    exact parse_text_of_group_eq_nil h (by simpa using hgroup)
  · next hgroup =>
    exact parse_text_of_group_ne_nil h (by simpa using hgroup)

theorem reread_eq_self_iff (h : parse s = .ok r) : r.reread = r ↔ ¬r.LosesBlank := by
  obtain ⟨group, name⟩ := r
  have hhead := Text.trimChars_eq_self_iff_head (isBlank_getLast?_name h)
  unfold reread
  split
  · next hgroup =>
    have hempty : group = "" := by simpa using hgroup
    rw [RuleRef.mk.injEq, and_iff_right rfl, ← String.toList_inj, Text.toList_trim, hhead]
    constructor
    · rintro hkept ⟨-, c, cs, hname, hblank⟩
      rw [hkept c (by rw [hname]; rfl)] at hblank
      cases hblank
    · intro hkept c hc
      obtain ⟨cs, hname⟩ := List.head?_eq_some_iff.mp hc
      by_contra hblank
      exact hkept ⟨hempty, c, cs, hname, Bool.of_not_eq_false hblank⟩
  · next hgroup =>
    refine iff_of_true rfl fun hloses => hgroup ?_
    have hempty : group = "" := hloses.group
    rw [hempty]
    rfl

/-- A reference that was read is read back from its text, unless that loses a
blank. -/
theorem parse_text_eq_ok_iff (h : parse s = .ok r) : parse r.text = .ok r ↔ ¬r.LosesBlank := by
  rw [parse_text_of_parse h, Except.ok.injEq, reread_eq_self_iff h]

/-- Such a name was read from a text that begins with its only slash and goes on
with a blank. -/
theorem losesBlank_iff (h : parse s = .ok r) : r.LosesBlank ↔
    ∃ c cs, Text.trimChars s.toList = '/' :: c :: cs ∧ Text.isBlank c = true ∧ '/' ∉ cs := by
  constructor
  · rintro ⟨hgroup, c, cs, hname, hblank⟩
    obtain ⟨-, hslash, hparts⟩ := parse_eq_ok_iff.mp h
    rw [hname] at hslash hparts
    rcases hparts with hparts | ⟨-, hparts⟩
    · rw [hgroup] at hparts
      exact ⟨c, cs, hparts, hblank, fun hmem => hslash (List.mem_cons_of_mem c hmem)⟩
    · have hhead := (Text.isTrimmed_trimChars s.toList).head c (by rw [hparts]; rfl)
      rw [hblank] at hhead
      cases hhead
  · rintro ⟨c, cs, hs, hblank, hslash⟩
    have hc : c ≠ '/' := by
      rintro rfl
      revert hblank
      decide
    have hread : parse s = .ok ⟨"", String.ofList (c :: cs)⟩ := by
      rw [parse_eq_ok_iff]
      simp [hs, hc.symm, hslash]
    obtain rfl := Except.ok.inj (h.symm.trans hread)
    exact ⟨rfl, c, cs, String.toList_ofList, hblank⟩

end RuleRef

/-! ## Rule sets -/

open Document

namespace Check

/-- Only one tag stands for checks with a count. -/
theorem exists_asNatural_of_ofTagged {tag : String} {rest : Document} {count : Nat}
    (h : ofTagged tag rest = .ok (.minimumLinks count)) : ∃ d, asNatural d = .ok count := by
  unfold ofTagged at h
  split at h
  case h_7 =>
    obtain ⟨fields, -, h⟩ := bind_eq_ok_iff.mp h
    obtain ⟨n, hn, h⟩ := bind_eq_ok_iff.mp h
    cases h
    exact Fields.exists_of_required_eq_ok hn
  case h_6 =>
    dsimp only at h
    split at h <;> cases h
  all_goals simp [bind_eq_ok_iff, pure_eq_ok] at h

theorem fitsDocument_of_ofDocument {d : Document} {c : Check} (h : Check.ofDocument d = .ok c) :
    c.FitsDocument := by
  obtain ⟨⟨tag, rest⟩, -, h⟩ := bind_eq_ok_iff.mp h
  cases c with
  | minimumLinks count =>
      obtain ⟨value, hvalue⟩ := exists_asNatural_of_ofTagged h
      exact lt_of_asNatural hvalue
  | _ => trivial

end Check

theorem Rule.fitsDocument_of_ofDocument {d : Document} {rule : Rule}
    (h : Rule.ofDocument d = .ok rule) : rule.check.FitsDocument := by
  obtain ⟨fields, -, h⟩ := bind_eq_ok_iff.mp h
  obtain ⟨id, -, h⟩ := bind_eq_ok_iff.mp h
  obtain ⟨message, -, h⟩ := bind_eq_ok_iff.mp h
  obtain ⟨check, hcheck, h⟩ := bind_eq_ok_iff.mp h
  cases h
  obtain ⟨value, hvalue⟩ := Fields.exists_of_required_eq_ok hcheck
  exact Check.fitsDocument_of_ofDocument hvalue

namespace RuleSet

variable {format other : Format} {d : Document} {s t : RuleSet}

/-- The set that a set is read as from its own document, if it was itself read
from some document. -/
def reread (s : RuleSet) : RuleSet :=
  { s with rules := s.rules.map fun rule => { rule with id := rule.id.reread } }

/-- What was read from a document of any format can be written and read again. -/
theorem ofDocument_toDocument (h : RuleSet.ofDocument format d = .ok s) :
    RuleSet.ofDocument other s.toDocument = .ok s.reread := by
  refine ofDocument_toDocument_eq_ok_iff.mpr (asList_map_eq_ok_map_iff.mpr fun rule hrule => ?_)
  obtain ⟨item, hitem⟩ := exists_ofDocument_of_mem h rule hrule
  obtain ⟨text, htext⟩ := Rule.exists_parse_of_ofDocument hitem
  have hid := RuleRef.ofDocument_text_iff.mpr (RuleRef.parse_text_of_parse htext)
  have hcheck := Check.ofDocument_toDocument_iff.mpr (Rule.fitsDocument_of_ofDocument hitem)
  exact Rule.ofDocument_toDocument hid hcheck

theorem isStorable_iff_of_load (h : load format d = .ok s) :
    s.IsStorable ↔ ∀ rule ∈ s.rules, ¬rule.id.LosesBlank := by
  obtain ⟨hread, husable⟩ := load_eq_ok_iff.mp h
  constructor
  · intro hstorable rule hrule
    obtain ⟨text, htext⟩ := exists_parse_of_ofDocument hread rule hrule
    exact (RuleRef.parse_text_eq_ok_iff htext).mp (hstorable.names rule hrule)
  · intro hkept
    refine ⟨husable, fun rule hrule => ?_, fun rule hrule => ?_⟩
    · obtain ⟨text, htext⟩ := exists_parse_of_ofDocument hread rule hrule
      exact (RuleRef.parse_text_eq_ok_iff htext).mpr (hkept rule hrule)
    · obtain ⟨item, hitem⟩ := exists_ofDocument_of_mem hread rule hrule
      exact Rule.fitsDocument_of_ofDocument hitem

/-- A reference that was read is read back from its text exactly if it was not
read from a slash with a blank behind it; otherwise it comes back without the
blank. So a rule set that was loaded from a document is written and read again
with no change but that of such names, and is loaded again as it was exactly if
it has none of them. -/
theorem names_survive_iff (text : String) (format : Format) (d : Document) :
    (∀ r, RuleRef.parse text = .ok r →
      RuleRef.parse r.text = .ok r.reread ∧
      (RuleRef.parse r.text = .ok r ↔ ¬∃ c cs, Text.trimChars text.toList = '/' :: c :: cs ∧
        Text.isBlank c = true ∧ '/' ∉ cs)) ∧
    ∀ s, load format d = .ok s →
      RuleSet.ofDocument .json s.toDocument = .ok s.reread ∧
      (load .json s.toDocument = .ok s ↔ ∀ rule ∈ s.rules, ¬rule.id.LosesBlank) ∧
      (loadText .json s.toDocument.toJson = .ok s ↔ ∀ rule ∈ s.rules, ¬rule.id.LosesBlank) := by
  refine ⟨fun r h => ⟨RuleRef.parse_text_of_parse h, ?_⟩, fun s h => ?_⟩
  · rw [RuleRef.parse_text_eq_ok_iff h, RuleRef.losesBlank_iff h]
  · have hkept : load .json s.toDocument = .ok s ↔ ∀ rule ∈ s.rules, ¬rule.id.LosesBlank :=
      load_toDocument_iff_isStorable.trans (isStorable_iff_of_load h)
    obtain ⟨hread, -⟩ := load_eq_ok_iff.mp h
    exact ⟨ofDocument_toDocument hread, hkept, by rw [loadText_toJson, hkept]⟩

end RuleSet

namespace Sample

/-- A rule that is named `a / b` and one that is named `/ x`, in a document. -/
def blankNames : Document :=
  let rule (id : String) : Document :=
    .ofFields [("id", .text id), ("check", .ofFields [("type", .text "connected")])]
  .ofFields [("rules", .list [rule "a / b", rule "/ x"])]

/-- The rules of the document, the second one under some name. -/
def blankNamed (name : String) : RuleSet where
  starters := []
  rules := [{ id := ⟨"a ", " b"⟩, check := .connected }, { id := ⟨"", name⟩, check := .connected }]

end Sample

/-- The blank behind a slash is kept where a group stands in front of the slash,
and lost where none does. -/
theorem RuleSet.names_survive_iff_blankNames :
    RuleRef.parse "/ x" = .ok ⟨"", " x"⟩ ∧
      RuleRef.parse (RuleRef.text ⟨"", " x"⟩) = .ok ⟨"", "x"⟩ ∧
    load .json Sample.blankNames = .ok (Sample.blankNamed " x") ∧
      RuleSet.ofDocument .json (Sample.blankNamed " x").toDocument = .ok (Sample.blankNamed "x") ∧
      load .json (Sample.blankNamed " x").toDocument ≠ .ok (Sample.blankNamed " x") := by
  have hparse : RuleRef.parse "/ x" = .ok ⟨"", " x"⟩ := by decide +kernel
  have hload : load .json Sample.blankNames = .ok (Sample.blankNamed " x") := by decide +kernel
  have hname : RuleRef.reread ⟨"", " x"⟩ = ⟨"", "x"⟩ := by decide +kernel
  have hset : (Sample.blankNamed " x").reread = Sample.blankNamed "x" := by decide +kernel
  obtain ⟨htexts, hsets⟩ := names_survive_iff "/ x" .json Sample.blankNames
  obtain ⟨hagain, -⟩ := htexts _ hparse
  obtain ⟨hread, hkept, -⟩ := hsets _ hload
  rw [hname] at hagain
  rw [hset] at hread
  have hrule : { id := ⟨"", " x"⟩, check := .connected } ∈ (Sample.blankNamed " x").rules :=
    List.mem_cons_of_mem _ List.mem_cons_self
  have hblank : RuleRef.LosesBlank ⟨"", " x"⟩ := ⟨rfl, ' ', ['x'], rfl, rfl⟩
  exact ⟨hparse, hagain, hload, hread, fun hsame => hkept.mp hsame _ hrule hblank⟩

/-- The name behind the slash begins with a blank, and comes back without it. -/
theorem RuleRef.not_forall_parse_text :
    ¬∀ s r, RuleRef.parse s = .ok r → RuleRef.parse r.text = .ok r := by
  intro hall
  have hread : RuleRef.parse "/ x" = .ok ⟨"", " x"⟩ := by decide +kernel
  have hagain : RuleRef.parse (text ⟨"", " x"⟩) = .ok ⟨"", "x"⟩ := by decide +kernel
  have hsame : (⟨"", "x"⟩ : RuleRef) = ⟨"", " x"⟩ :=
    Except.ok.inj (hagain.symm.trans (hall _ _ hread))
  revert hsame
  decide

end LinkParse
