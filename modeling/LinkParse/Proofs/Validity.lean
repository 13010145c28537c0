import LinkParse.Configuration
import LinkParse.Proofs.Lists
import LinkParse.Proofs.Reading

/-!
# Rule sets that can be used

The one pass over the rules, with the names seen so far beside it, finds no
fault exactly if no name comes twice and every rule can be used by itself
(`RuleSet.fault?_eq_none_iff`). Then a name belongs to one rule only, and
the look-up by name is what one expects of it.
-/

namespace LinkParse

/-- By itself the rule has no fault: the domain that it is about is opened by
a starter, and a rule about companions lists some. -/
structure Rule.IsUsable (starters : List Starter) (rule : Rule) : Prop where
  opened : ∀ kind, rule.check.domain? = some kind → ∃ s ∈ starters, s.domain = kind
  companions : rule.check.lacksCompanions = false

namespace RuleSet

variable {starters : List Starter} {earlier : List RuleRef} {rule : Rule} {rules : List Rule}
  {s t : RuleSet}

/-! ## The pass over the rules -/

theorem ruleFault?_eq_none_iff :
    ruleFault? starters earlier rule = none ↔ rule.id ∉ earlier ∧ rule.IsUsable starters := by
  unfold ruleFault?
  by_cases hseen : rule.id ∈ earlier
  · simp [hseen]
  · rw [if_neg hseen]
    cases hunopened : rule.check.domain?.filter fun kind => !starters.any (·.domain == kind) with
    | some kind =>
        obtain ⟨hkind, hnone⟩ := Option.filter_eq_some_iff.mp hunopened
        constructor
        · intro h
          cases h
        · rintro ⟨-, husable⟩
          obtain ⟨starter, hmem, hdomain⟩ := husable.opened kind hkind
          have hany : (starters.any (·.domain == kind)) = true :=
            List.any_eq_true.mpr ⟨starter, hmem, beq_iff_eq.mpr hdomain⟩
          simp [hany] at hnone
    | none =>
        have hopened : ∀ kind, rule.check.domain? = some kind →
            ∃ s ∈ starters, s.domain = kind := by
          intro kind hkind
          rw [Option.filter_eq_none_iff] at hunopened
          simpa using hunopened kind hkind
        constructor
        · intro h
          refine ⟨hseen, hopened, ?_⟩
          simpa using h
        · rintro ⟨-, husable⟩
          simp [husable.companions]

/-- Of the rules behind some names none has a fault exactly if their names
differ from those and from each other, and all are usable. -/
theorem firstFault?_eq_none_iff : firstFault? starters earlier rules = none ↔
    (rules.map Rule.id).Nodup ∧ (∀ id ∈ rules.map Rule.id, id ∉ earlier) ∧
      ∀ rule ∈ rules, rule.IsUsable starters := by
  induction rules generalizing earlier with
  | nil => simp [firstFault?]
  | cons rule rules ih =>
      rw [firstFault?, List.map_cons, List.nodup_cons, List.forall_mem_cons, List.forall_mem_cons]
      cases hfault : ruleFault? starters earlier rule with
      | some fault =>
          have hnot : ¬(rule.id ∉ earlier ∧ rule.IsUsable starters) := by
            rw [← ruleFault?_eq_none_iff, hfault]
            exact Option.some_ne_none fault
          constructor
          · intro h
            cases h
          · rintro ⟨-, ⟨hnew, -⟩, husable, -⟩
            exact absurd ⟨hnew, husable⟩ hnot
      | none =>
          obtain ⟨hnew, husable⟩ := ruleFault?_eq_none_iff.mp hfault
          dsimp only
          rw [ih]
          constructor
          · rintro ⟨hnodup, hrest, hall⟩
            simp only [List.mem_cons, not_or] at hrest
            refine ⟨⟨?_, hnodup⟩, ⟨hnew, fun id hid => (hrest id hid).2⟩, husable, hall⟩
            intro hid
            exact (hrest rule.id hid).1 rfl
          · rintro ⟨⟨hid, hnodup⟩, ⟨-, hrest⟩, -, hall⟩
            refine ⟨hnodup, fun id hmem => ?_, hall⟩
            rw [List.mem_cons, not_or]
            exact ⟨fun heq => hid (heq ▸ hmem), hrest id hmem⟩

theorem fault?_eq_none_iff : s.fault? = none ↔
    (s.rules.map Rule.id).Nodup ∧ ∀ rule ∈ s.rules, rule.IsUsable s.starters := by
  rw [fault?, firstFault?_eq_none_iff]
  simp

theorem checked_eq_ok_iff : s.checked = .ok t ↔ s.fault? = none ∧ s = t := by
  unfold checked
  cases s.fault? with
  | none => simp
  | some fault => simp

theorem load_eq_ok_iff {format : Format} {d : Document} :
    load format d = .ok s ↔ RuleSet.ofDocument format d = .ok s ∧ s.fault? = none := by
  rw [load, bind_eq_ok_iff]
  constructor
  · rintro ⟨read, hread, hchecked⟩
    obtain ⟨hfault, rfl⟩ := checked_eq_ok_iff.mp hchecked
    exact ⟨mapError_eq_ok_iff.mp hread, hfault⟩
  · rintro ⟨hread, hfault⟩
    exact ⟨s, mapError_eq_ok_iff.mpr hread, checked_eq_ok_iff.mpr ⟨hfault, rfl⟩⟩

/-! ## Looking a rule up -/

/-- Where no name comes twice, a rule is found under its name. -/
theorem rule?_eq_some (hnodup : (s.rules.map Rule.id).Nodup) (hrule : rule ∈ s.rules) :
    s.rule? rule.id = some rule := by
  rw [rule?, ← List.head?_filter, filter_key_eq_singleton hnodup hrule]
  rfl

end RuleSet

end LinkParse
