import LinkParse.Proofs.Reference
import LinkParse.Proofs.Validity
import LinkParse.Proofs.Verdict

/-!
# Rules are known by their texts

The rules of a set that was loaded from a document have names that were read
from texts, so their names hold no slash and their texts can stand for them:
no text belongs to two rules. Therefore a violation, of which a user sees
only the text of the rule, points to one rule of the set, and to the one
that fails (`RuleSet.texts_name_rules`).
-/

namespace LinkParse

open Document

variable {format : Format} {d : Document}

/-! ## Names that were read -/

theorem RuleRef.exists_parse_of_ofDocument {r : RuleRef} (h : RuleRef.ofDocument d = .ok r) :
    ∃ s, RuleRef.parse s = .ok r := by
  obtain ⟨s, -, h⟩ := bind_eq_ok_iff.mp h
  exact ⟨s, mapError_eq_ok_iff.mp h⟩

theorem Rule.exists_parse_of_ofDocument {rule : Rule} (h : Rule.ofDocument d = .ok rule) :
    ∃ s, RuleRef.parse s = .ok rule.id := by
  obtain ⟨fields, -, h⟩ := bind_eq_ok_iff.mp h
  obtain ⟨id, hid, h⟩ := bind_eq_ok_iff.mp h
  obtain ⟨message, -, h⟩ := bind_eq_ok_iff.mp h
  obtain ⟨check, -, h⟩ := bind_eq_ok_iff.mp h
  cases h
  obtain ⟨value, hvalue⟩ := Fields.exists_of_required_eq_ok hid
  exact RuleRef.exists_parse_of_ofDocument hvalue

namespace RuleSet

variable {s : RuleSet}

/-- Every rule of a set was read by itself. -/
theorem exists_ofDocument_of_mem (h : RuleSet.ofDocument format d = .ok s) :
    ∀ rule ∈ s.rules, ∃ item, Rule.ofDocument item = .ok rule := by
  obtain ⟨fields, -, h⟩ := bind_eq_ok_iff.mp h
  obtain ⟨starters, -, h⟩ := bind_eq_ok_iff.mp h
  obtain ⟨rules, hrules, h⟩ := bind_eq_ok_iff.mp h
  cases h
  intro rule hrule
  rcases Fields.exists_of_optional_eq_ok hrules with rfl | ⟨list, hlist⟩
  · cases hrule
  · cases list with
    | list items =>
        obtain ⟨item, -, hitem⟩ := exists_mem_of_mapM_eq_ok hlist rule hrule
        exact ⟨item, hitem⟩
    | _ => cases hlist

theorem exists_parse_of_ofDocument (h : RuleSet.ofDocument format d = .ok s) :
    ∀ rule ∈ s.rules, ∃ text, RuleRef.parse text = .ok rule.id := by
  intro rule hrule
  obtain ⟨item, hitem⟩ := exists_ofDocument_of_mem h rule hrule
  exact Rule.exists_parse_of_ofDocument hitem

/-- No two rules of a set from a document have the same text. -/
theorem nodup_texts_of_load (h : load format d = .ok s) :
    (s.rules.map fun rule => rule.id.text).Nodup := by
  obtain ⟨hread, hfault⟩ := load_eq_ok_iff.mp h
  obtain ⟨hnodup, -⟩ := fault?_eq_none_iff.mp hfault
  -- `RuleRef.text` tells names apart only if they have no slash
  have hslash : ∀ id ∈ s.rules.map Rule.id, '/' ∉ id.name.toList := by
    intro id hid
    obtain ⟨rule, hrule, rfl⟩ := List.mem_map.mp hid
    obtain ⟨text, htext⟩ := exists_parse_of_ofDocument hread rule hrule
    exact RuleRef.slash_notMem_name htext
  have htexts : ((s.rules.map Rule.id).map RuleRef.text).Nodup :=
    hnodup.map_on fun a ha b hb heq => RuleRef.eq_of_text_eq (hslash a ha) (hslash b hb) heq
  rwa [List.map_map] at htexts

end RuleSet

/-! ## The rule that is blamed -/

/-- The rule is one that a violation can report: it fails at the blamed link,
or no link is blamed and it asks for more links than there are. -/
def Rule.IsToBlame (rule : Rule) (starters : List Starter) (k : Linkage) (link : Option Nat) :
    Prop :=
  (∃ i < k.size, link = some i ∧ rule.check.FailsAt starters k.diagram i) ∨
    (link = none ∧ ∃ count, rule.check = .minimumLinks count ∧ k.size < count)

theorem Linkage.exists_isToBlame {k : Linkage} {s : RuleSet} (hk : k.isLabeled = true)
    {v : Violation} (hv : k.analyze s = .ok (.violated v)) :
    ∃ rule ∈ s.rules, v.rule = rule.id ∧ rule.IsToBlame s.starters k v.link := by
  have hjudged := judged_of_analyze hk hv
  cases hjudged with
  | @tooFew _ rule _ hp hrule hv =>
      obtain ⟨hlink, hid⟩ := Rule.shortfall?_eq_some hv
      obtain ⟨other, hother, count, hcount, hlt⟩ := hp.1
      obtain rfl := Option.some.inj (hrule.symm.trans hother)
      rw [length_arcs_diagram] at hlt
      exact ⟨rule, List.mem_of_getElem? hrule, hid, .inr ⟨hlink, count, hcount, hlt⟩⟩
  | @blamed i _ _ rule _ _ ha hrule _ hv =>
      obtain ⟨hlink, hid⟩ := Rule.violationAt?_eq_some hv
      obtain ⟨l, hl, -⟩ := getElem?_arcs_diagram.mp ha
      obtain ⟨hi, -⟩ := List.getElem?_eq_some_iff.mp hl
      have hfails := Rule.failsAt_of_violationAt? ha hv
      exact ⟨rule, List.mem_of_getElem? hrule, hid, .inl ⟨i, hi, hlink, hfails⟩⟩

/-- In a set that was loaded from a document the texts of the rules are all
different, and the text in a violation is that of one rule, which is found
under the name that the violation has and is to blame. -/
theorem RuleSet.texts_name_rules {s : RuleSet} (h : load format d = .ok s) :
    (s.rules.map fun rule => rule.id.text).Nodup ∧
    ∀ (k : Linkage) (v : Violation), k.isLabeled = true → k.analyze s = .ok (.violated v) →
      ∃ rule, s.rules.filter (·.id.text == v.rule.text) = [rule] ∧ s.rule? v.rule = some rule ∧
        rule.IsToBlame s.starters k v.link := by
  have htexts := nodup_texts_of_load h
  obtain ⟨-, hfault⟩ := load_eq_ok_iff.mp h
  obtain ⟨hnodup, -⟩ := fault?_eq_none_iff.mp hfault
  refine ⟨htexts, fun k v hk hv => ?_⟩
  obtain ⟨rule, hrule, hid, hblame⟩ := Linkage.exists_isToBlame hk hv
  rw [hid]
  exact ⟨rule, filter_key_eq_singleton htexts hrule, rule?_eq_some hnodup hrule, hblame⟩

theorem Sample.load_clauseChecks :
    RuleSet.load .json clauseChecks.toDocument = .ok clauseChecks := by decide +kernel

/-- The two crossing clauses are blamed on the only rule with the text that
the violation shows. -/
theorem RuleSet.texts_name_rules_crossing :
    load .json Sample.clauseChecks.toDocument = .ok Sample.clauseChecks ∧
    ∃ rule, Sample.clauseChecks.rules.filter (·.id.text == "clause/no-crossing") = [rule] ∧
      rule.check.FailsAt Sample.clauseChecks.starters Sample.crossing.diagram 1 := by
  refine ⟨Sample.load_clauseChecks, ?_⟩
  obtain ⟨-, hblame⟩ := texts_name_rules Sample.load_clauseChecks
  obtain ⟨rule, honly, -, ⟨i, -, hlink, hfails⟩ | ⟨hlink, -⟩⟩ :=
    hblame _ _ Sample.isLabeled_crossing Sample.analyze_crossing
  · obtain rfl := Option.some.inj hlink
    exact ⟨rule, honly, hfails⟩
  · cases hlink

end LinkParse
