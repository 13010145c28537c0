import LinkParse.Proofs.Validity
import Mathlib.Order.Bounds.Basic

/-!
# What is reported of a rule set that cannot be used

A rule set is coherent if its rules have different names, the kinds of domains
that they are about are opened by starters, and its companion rules list
companions. The pass over the rules finds no fault exactly in coherent sets
(`RuleSet.fault?_eq_none_iff_isCoherent`).

The pass remembers the names that it has seen, and these are the names of the
rules before the one that it looks at. So it stops at the first rule that is at
fault, and what it reports of this rule is the first thing that is wrong with it
(`RuleSet.fault?_eq_some_iff`). Whatever way a rule set comes about, the pass has
gone over it (`RuleSet.accepted_iff_isCoherent`).
-/

namespace LinkParse

/-! ## Checks -/

namespace Check

variable {c : Check} {kind : String}

/-- Checks of two kinds are about a kind of domain. -/
theorem domain?_eq_some_iff :
    c.domain? = some kind ↔ (∃ allow, c = .containment kind allow) ∨ c = .bounded kind := by
  cases c <;> simp [domain?]

theorem lacksCompanions_iff : c.lacksCompanions = true ↔
    ∃ selector scope requirement, c = .companion selector [] scope requirement := by
  cases c <;> simp [lacksCompanions]

end Check

namespace Rule

variable {starters : List Starter} {rule : Rule} {kind : String}

/-- The check is about a kind of domain that no starter opens. -/
def NamesUnopened (starters : List Starter) (rule : Rule) (kind : String) : Prop :=
  ((∃ allow, rule.check = .containment kind allow) ∨ rule.check = .bounded kind) ∧
    ∀ s ∈ starters, s.domain ≠ kind

/-- The check asks for companions, or forbids them, and lists none. -/
def ListsNoCompanions (rule : Rule) : Prop :=
  ∃ selector scope requirement, rule.check = .companion selector [] scope requirement

/-- What is wrong with a rule that may have the name of another one. Only the
first thing counts. -/
inductive HasFault (starters : List Starter) (repeated : Prop) (rule : Rule) : RuleSet.Fault → Prop
  | duplicateId (hrepeated : repeated) : HasFault starters repeated rule (.duplicateId rule.id)
  | unopenedDomain {kind : String} (hnew : ¬repeated)
      (hunopened : rule.NamesUnopened starters kind) :
      HasFault starters repeated rule (.unopenedDomain rule.id kind)
  | noCompanions (hnew : ¬repeated) (hopened : ∀ kind, ¬rule.NamesUnopened starters kind)
      (hnone : rule.ListsNoCompanions) : HasFault starters repeated rule (.noCompanions rule.id)

theorem filter_domain?_eq_some_iff :
    (rule.check.domain?.filter fun kind => !starters.any (·.domain == kind)) = some kind ↔
      rule.NamesUnopened starters kind := by
  rw [Option.filter_eq_some_iff, Check.domain?_eq_some_iff]
  simp [NamesUnopened]

/-- Some fault is found exactly if something is wrong. -/
theorem exists_hasFault_iff {repeated : Prop} : (∃ fault, rule.HasFault starters repeated fault) ↔
    repeated ∨ (∃ kind, rule.NamesUnopened starters kind) ∨ rule.ListsNoCompanions := by
  constructor
  · rintro ⟨fault, h⟩
    cases h with
    | duplicateId hrepeated => exact .inl hrepeated
    | unopenedDomain _ hunopened => exact .inr (.inl ⟨_, hunopened⟩)
    | noCompanions _ _ hnone => exact .inr (.inr hnone)
  · intro h
    by_cases hrepeated : repeated
    · exact ⟨_, .duplicateId hrepeated⟩
    · by_cases hopened : ∃ kind, rule.NamesUnopened starters kind
      · obtain ⟨kind, hunopened⟩ := hopened
        exact ⟨_, .unopenedDomain hrepeated hunopened⟩
      · have hnone := (h.resolve_left hrepeated).resolve_left hopened
        exact ⟨_, .noCompanions hrepeated (not_exists.mp hopened) hnone⟩

end Rule

namespace RuleSet

variable {starters : List Starter} {earlier : List RuleRef} {rule : Rule} {rules : List Rule}
  {s : RuleSet} {fault : Fault} {i : Nat}

/-! ## Faults of one rule -/

theorem ruleFault?_eq_some_iff : ruleFault? starters earlier rule = some fault ↔
    rule.HasFault starters (rule.id ∈ earlier) fault := by
  unfold ruleFault?
  by_cases hseen : rule.id ∈ earlier
  · rw [if_pos hseen, Option.some_inj]
    constructor
    · rintro rfl
      exact .duplicateId hseen
    · intro h
      cases h with
      | duplicateId _ => rfl
      | unopenedDomain hnew _ => exact absurd hseen hnew
      | noCompanions hnew _ _ => exact absurd hseen hnew
  · rw [if_neg hseen]
    cases hfound : rule.check.domain?.filter fun kind => !starters.any (·.domain == kind) with
    | some kind =>
        have hunopened := Rule.filter_domain?_eq_some_iff.mp hfound
        rw [Option.some_inj]
        constructor
        · rintro rfl
          exact .unopenedDomain hseen hunopened
        · intro h
          cases h with
          | duplicateId hrepeated => exact absurd hrepeated hseen
          | unopenedDomain _ hother =>
              rw [Rule.filter_domain?_eq_some_iff.mpr hother] at hfound
              rw [Option.some.inj hfound]
          | noCompanions _ hopened _ => exact absurd hunopened (hopened kind)
    | none =>
        have hopened : ∀ kind, ¬rule.NamesUnopened starters kind := by
          intro kind hunopened
          rw [Rule.filter_domain?_eq_some_iff.mpr hunopened] at hfound
          cases hfound
        dsimp only
        rw [Option.ite_none_right_eq_some, Check.lacksCompanions_iff, Option.some_inj]
        constructor
        · rintro ⟨hnone, rfl⟩
          exact .noCompanions hseen hopened hnone
        · intro h
          cases h with
          | duplicateId hrepeated => exact absurd hrepeated hseen
          | unopenedDomain _ hunopened => exact absurd hunopened (hopened _)
          | noCompanions _ _ hnone => exact ⟨hnone, rfl⟩

/-! ## The first rule at fault -/

/-- A rule before the place has the name of this rule. -/
def RepeatsId (s : RuleSet) (i : Nat) (rule : Rule) : Prop :=
  ∃ j < i, ∃ earlier : Rule, s.rules[j]? = some earlier ∧ earlier.id = rule.id

/-- The rule at the place repeats the name of an earlier one, or names a domain
that no starter opens, or lists no companions. -/
def IsAtFault (s : RuleSet) (i : Nat) : Prop :=
  ∃ rule, s.rules[i]? = some rule ∧ (s.RepeatsId i rule ∨
    (∃ kind, rule.NamesUnopened s.starters kind) ∨ rule.ListsNoCompanions)

/-- The names that the pass has seen when it comes to a place. -/
def seenBefore (rules : List Rule) (earlier : List RuleRef) (i : Nat) : List RuleRef :=
  ((rules.take i).map Rule.id).reverse ++ earlier

theorem seenBefore_cons_succ (rules : List Rule) (earlier : List RuleRef) (i : Nat) :
    seenBefore (rule :: rules) earlier (i + 1) = seenBefore rules (rule.id :: earlier) i := by
  simp [seenBefore]

theorem mem_seenBefore_iff : rule.id ∈ seenBefore s.rules [] i ↔ s.RepeatsId i rule := by
  unfold seenBefore RepeatsId
  simp only [List.append_nil, List.mem_reverse, List.mem_map, List.mem_take_iff_getElem]
  constructor
  · rintro ⟨_, ⟨j, hj, rfl⟩, hid⟩
    exact ⟨j, by omega, _, List.getElem?_eq_getElem (by omega), hid⟩
  · rintro ⟨j, hj, earlier, hearlier, hid⟩
    obtain ⟨hlt, rfl⟩ := List.getElem?_eq_some_iff.mp hearlier
    exact ⟨_, ⟨j, by omega, rfl⟩, hid⟩

/-- The pass stops at the first place where it finds a fault. -/
theorem firstFault?_eq_some_iff : firstFault? starters earlier rules = some fault ↔
    ∃ i rule, rules[i]? = some rule ∧
      ruleFault? starters (seenBefore rules earlier i) rule = some fault ∧
      ∀ j < i, ∀ other, rules[j]? = some other →
        ruleFault? starters (seenBefore rules earlier j) other = none := by
  induction rules generalizing earlier with
  | nil => simp [firstFault?]
  | cons rule rules ih =>
      rw [firstFault?]
      cases hfault : ruleFault? starters earlier rule with
      | some found =>
          constructor
          · intro h
            exact ⟨0, rule, rfl, hfault.trans h, fun j hj => absurd hj (Nat.not_lt_zero j)⟩
          · rintro ⟨i, other, hother, hfound, hbefore⟩
            cases i with
            | zero =>
                obtain rfl := Option.some.inj hother
                exact hfault.symm.trans hfound
            | succ i =>
                have hnone := hbefore 0 (Nat.succ_pos i) rule rfl
                cases hfault.symm.trans hnone
      | none =>
          dsimp only
          rw [ih]
          constructor
          · rintro ⟨i, other, hother, hfound, hbefore⟩
            refine ⟨i + 1, other, hother, ?_, fun j hj earlierRule hearlier => ?_⟩
            · rw [seenBefore_cons_succ]
              exact hfound
            · cases j with
              | zero =>
                  obtain rfl := Option.some.inj hearlier
                  exact hfault
              | succ j =>
                  rw [seenBefore_cons_succ]
                  exact hbefore j (Nat.lt_of_succ_lt_succ hj) earlierRule hearlier
          · rintro ⟨i, other, hother, hfound, hbefore⟩
            cases i with
            | zero =>
                obtain rfl := Option.some.inj hother
                cases hfault.symm.trans hfound
            | succ i =>
                rw [seenBefore_cons_succ] at hfound
                refine ⟨i, other, hother, hfound, fun j hj earlierRule hearlier => ?_⟩
                rw [← seenBefore_cons_succ]
                exact hbefore (j + 1) (Nat.succ_lt_succ hj) earlierRule hearlier

theorem isAtFault_iff (hrule : s.rules[i]? = some rule) : s.IsAtFault i ↔
    ∃ fault, ruleFault? s.starters (seenBefore s.rules [] i) rule = some fault := by
  simp only [ruleFault?_eq_some_iff, mem_seenBefore_iff, Rule.exists_hasFault_iff]
  constructor
  · rintro ⟨other, hother, hwrong⟩
    obtain rfl : rule = other := Option.some.inj (hrule.symm.trans hother)
    exact hwrong
  · intro hwrong
    exact ⟨rule, hrule, hwrong⟩

/-- What is reported: the first thing that is wrong with the first rule at
fault. -/
def IsReported (s : RuleSet) (fault : Fault) : Prop :=
  ∃ i rule, IsLeast {i | s.IsAtFault i} i ∧ s.rules[i]? = some rule ∧
    rule.HasFault s.starters (s.RepeatsId i rule) fault

theorem fault?_eq_some_iff : s.fault? = some fault ↔ s.IsReported fault := by
  rw [fault?, firstFault?_eq_some_iff]
  refine exists_congr fun i => exists_congr fun rule => ?_
  constructor
  · rintro ⟨hrule, hfault, hbefore⟩
    refine ⟨⟨(isAtFault_iff hrule).mpr ⟨fault, hfault⟩, fun j hj => ?_⟩, hrule, ?_⟩
    · by_contra hlt
      have hfaulty : s.IsAtFault j := hj
      obtain ⟨other, hother, -⟩ := hfaulty
      obtain ⟨found, hfound⟩ := (isAtFault_iff hother).mp hj
      cases hfound.symm.trans (hbefore j (Nat.not_le.mp hlt) other hother)
    · rw [← mem_seenBefore_iff]
      exact ruleFault?_eq_some_iff.mp hfault
  · rintro ⟨⟨-, hleast⟩, hrule, hfault⟩
    rw [← mem_seenBefore_iff] at hfault
    refine ⟨hrule, ruleFault?_eq_some_iff.mpr hfault, fun j hj other hother => ?_⟩
    rw [Option.eq_none_iff_forall_ne_some]
    intro found hfound
    exact Nat.not_le.mpr hj (hleast ((isAtFault_iff hother).mpr ⟨found, hfound⟩))

/-! ## Coherent sets -/

/-- The rules have different names, the kinds of domains that they are about are
opened by starters, and those about companions list some. -/
structure IsCoherent (s : RuleSet) : Prop where
  ids : s.rules.Pairwise fun a b => a.id ≠ b.id
  containment : ∀ rule ∈ s.rules, ∀ kind allow, rule.check = .containment kind allow →
    ∃ starter ∈ s.starters, starter.domain = kind
  bounded : ∀ rule ∈ s.rules, ∀ kind, rule.check = .bounded kind →
    ∃ starter ∈ s.starters, starter.domain = kind
  companion : ∀ rule ∈ s.rules, ∀ selector companions scope requirement,
    rule.check = .companion selector companions scope requirement → companions ≠ []

theorem fault?_eq_none_iff_isCoherent : s.fault? = none ↔ s.IsCoherent := by
  rw [fault?_eq_none_iff, List.nodup_iff_pairwise_ne, List.pairwise_map]
  constructor
  · rintro ⟨hids, husable⟩
    refine ⟨hids, fun rule hrule kind allow hcheck => ?_, fun rule hrule kind hcheck => ?_,
      fun rule hrule selector companions scope requirement hcheck hnil => ?_⟩
    · exact (husable rule hrule).opened kind (Check.domain?_eq_some_iff.mpr (.inl ⟨allow, hcheck⟩))
    · exact (husable rule hrule).opened kind (Check.domain?_eq_some_iff.mpr (.inr hcheck))
    · have hlacks := Check.lacksCompanions_iff.mpr ⟨selector, scope, requirement, hnil ▸ hcheck⟩
      rw [(husable rule hrule).companions] at hlacks
      cases hlacks
  · intro h
    refine ⟨h.ids, fun rule hrule => ⟨fun kind hkind => ?_, ?_⟩⟩
    · rcases Check.domain?_eq_some_iff.mp hkind with ⟨allow, hcheck⟩ | hcheck
      · exact h.containment rule hrule kind allow hcheck
      · exact h.bounded rule hrule kind hcheck
    · rw [← Bool.not_eq_true, Check.lacksCompanions_iff]
      rintro ⟨selector, scope, requirement, hcheck⟩
      exact h.companion rule hrule selector [] scope requirement hcheck rfl

/-! ## Ways to a rule set -/

theorem checked_eq_error_iff {error : LoadError} :
    s.checked = .error error ↔ ∃ fault, error = .rules fault ∧ s.fault? = some fault := by
  unfold checked
  cases s.fault? with
  | none => simp
  | some fault => simp [eq_comm]

theorem load_eq_error_rules_iff {format : Format} {d : Document} :
    load format d = .error (.rules fault) ↔
      ∃ s, RuleSet.ofDocument format d = .ok s ∧ s.fault? = some fault := by
  unfold load
  cases hread : RuleSet.ofDocument format d with
  | error misfit =>
      constructor
      · intro h
        cases h
      · rintro ⟨s, h, -⟩
        cases h
  | ok s =>
      have hchecked : s.checked = .error (.rules fault) ↔ s.fault? = some fault := by
        simp [checked_eq_error_iff]
      constructor
      · intro h
        exact ⟨s, rfl, hchecked.mp h⟩
      · rintro ⟨t, ht, hfault⟩
        obtain rfl := Except.ok.inj ht
        exact hchecked.mpr hfault

theorem loadText_eq_iff {format : Format} {text : String} {p : Document → Prop}
    {result : Except LoadError RuleSet} (hresult : result ≠ .error (.notADocument format))
    (h : ∀ d, load format d = result ↔ p d) : loadText format text = result ↔
      ∃ d, Document.ofText? layout format text = some d ∧ p d := by
  unfold loadText
  cases Document.ofText? layout format text with
  | some d => simp [h]
  | none => simp [hresult.symm]

/-- The pass over the rules finds no fault exactly in the coherent rule sets, and
in the others it finds the first thing that is wrong with the first rule at
fault. What is built is what was put in, and it is coherent; what is loaded from
a text of any format was read there, and it is coherent. A set that is not is
refused for what the pass reports. -/
theorem accepted_iff_isCoherent :
    (∀ s : RuleSet, (s.fault? = none ↔ s.IsCoherent) ∧
      ∀ fault, s.fault? = some fault ↔ s.IsReported fault) ∧
    (∀ starters rules,
      (∀ s, build starters rules = .ok s ↔ s = ⟨starters, rules⟩ ∧ s.IsCoherent) ∧
      ∀ error, build starters rules = .error error ↔
        ∃ fault, error = .rules fault ∧ IsReported ⟨starters, rules⟩ fault) ∧
    ∀ format text,
      (∀ s, loadText format text = .ok s ↔ ∃ d, Document.ofText? layout format text = some d ∧
        RuleSet.ofDocument format d = .ok s ∧ s.IsCoherent) ∧
      ∀ fault, loadText format text = .error (.rules fault) ↔
        ∃ d, Document.ofText? layout format text = some d ∧
          ∃ s, RuleSet.ofDocument format d = .ok s ∧ s.IsReported fault := by
  refine ⟨fun s => ⟨fault?_eq_none_iff_isCoherent, fun fault => fault?_eq_some_iff⟩,
    fun starters rules => ⟨fun s => ?_, fun error => ?_⟩,
    fun format text => ⟨fun s => ?_, fun fault => ?_⟩⟩
  · rw [build, checked_eq_ok_iff, fault?_eq_none_iff_isCoherent]
    constructor
    · rintro ⟨hcoherent, rfl⟩
      exact ⟨rfl, hcoherent⟩
    · rintro ⟨rfl, hcoherent⟩
      exact ⟨hcoherent, rfl⟩
  · simp only [build, checked_eq_error_iff, fault?_eq_some_iff]
  · refine loadText_eq_iff (by simp) fun d => ?_
    rw [load_eq_ok_iff, fault?_eq_none_iff_isCoherent]
  · refine loadText_eq_iff (by simp) fun d => ?_
    simp only [load_eq_error_rules_iff, fault?_eq_some_iff]

/-- The second rule names an unopened domain and the third one the first one's
name, so the second one is reported. -/
example : build [] [{ id := ⟨"", "a"⟩, check := .connected },
    { id := ⟨"", "b"⟩, check := .bounded "clause" }, { id := ⟨"", "a"⟩, check := .connected }] =
      .error (.rules (.unopenedDomain ⟨"", "b"⟩ "clause")) := by
  decide +kernel

end RuleSet

end LinkParse
