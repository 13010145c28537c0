import LinkParse.Proofs.Validity
import LinkParse.Proofs.Verdict

/-!
# Checks of pairs of links

An order and a forbidden companion are demands on two links at once. The
analysis selects the one by its label and looks for the other among the
members of the domains around it, or in the whole linkage, and it never takes
a link for its own partner. Which of the two it starts from makes no
difference to what it accepts:

* that the links of one pattern come before those of another is the same as
  that the latter come after the former (`Linkage.analyze_ordering_swap`);
* that a link has no companion of some patterns is the same as that no link of
  any of these patterns has it for a companion (`Linkage.analyze_forbid_swap`).

For this both checks are read as statements on pairs of links with different
numbers, `Diagram.InOrder` and `Diagram.KeptApart`. A domain around a link is
then a domain with both links as members, which is the same from either side.
-/

namespace LinkParse

/-! ## Rules to try -/

namespace Sample

def determinerPattern : Pattern := (Pattern.make "D").toOption.get (by decide +kernel)

def subjectPattern : Pattern := (Pattern.make "S").toOption.get (by decide +kernel)

def objectPattern : Pattern := (Pattern.make "O").toOption.get (by decide +kernel)

def subjectStarters : List Starter := [{ pattern := subjectPattern, domain := "subject" }]

/-- The subject link is written twice, so there are two domains with the same
three members. The first link is in none. -/
def twoSubjects : Linkage :=
  Sentence.labeled? ⟨4, [(0, 1, "Ds"), (1, 2, "Ss"), (2, 3, "Os"), (1, 2, "Ss")], 0⟩
    |>.get (by decide +kernel)

theorem isLabeled_twoSubjects : twoSubjects.isLabeled = true := by decide +kernel

def orderRule (selector anchor : Pattern) (placement : Placement) : Rule :=
  { id := ⟨"order", selector.text⟩, check := .ordering selector anchor placement }

def forbidRule (scope : Scope) (companions : List Pattern) (selector : Pattern) : Rule :=
  { id := ⟨"companion", selector.text⟩, check := .companion selector companions scope .forbid }

end Sample

/-! ## Pairs of links -/

namespace Diagram

variable {d : Diagram} {starters : List Starter} {p q : Pattern} {scope : Scope} {i j : Nat}

/-- Two links are in one place: they are members of one domain, or just links
of the linkage. -/
def Share (d : Diagram) (starters : List Starter) : Scope → Nat → Nat → Prop
  | .domain, i, j => ∃ x, d.HasDomain starters x ∧ i ∈ x.members ∧ j ∈ x.members
  | .linkage, _, _ => True

theorem Share.symm : ∀ {scope : Scope}, d.Share starters scope i j → d.Share starters scope j i
  | .domain, ⟨x, hx, hi, hj⟩ => ⟨x, hx, hj, hi⟩
  | .linkage, _ => trivial

/-- In every domain the links of the first pattern come before all other links
of the second one, by left word and then by right word. -/
def InOrder (d : Diagram) (starters : List Starter) (p q : Pattern) : Prop :=
  ∀ i j a b, i ≠ j → d.arcs[i]? = some a → d.arcs[j]? = some b → d.Share starters .domain i j →
    p.accepts a.label = true → q.accepts b.label = true →
      toLex (a.left, a.right) < toLex (b.left, b.right)

/-- No link of the first pattern is in one place with another link of the
second one. -/
def KeptApart (d : Diagram) (starters : List Starter) (scope : Scope) (p q : Pattern) : Prop :=
  ∀ i j a b, i ≠ j → d.arcs[i]? = some a → d.arcs[j]? = some b → d.Share starters scope i j →
    p.accepts a.label = true → ¬q.accepts b.label = true

theorem KeptApart.symm (h : d.KeptApart starters scope p q) : d.KeptApart starters scope q p := by
  intro i j a b hne ha hb hshare hq hp
  exact h j i b a hne.symm hb ha hshare.symm hp hq

end Diagram

/-! ## Checks as statements on pairs -/

namespace Check

variable {d : Diagram} {starters : List Starter} {p q : Pattern} {qs : List Pattern} {scope : Scope}

/-- The selected link is the first of the pair. -/
theorem before_holds_iff :
    (ordering p q .before).Holds starters d ↔ d.InOrder starters p q := by
  constructor
  · rintro h i j a b hne ha hb ⟨x, hx, hi, hj⟩ hp hq
    exact h x hx i hi j hj hne.symm a b ha hb hp hq
  · intro h x hx i hi j hj hne a b ha hb hp hq
    exact h i j a b hne.symm ha hb ⟨x, hx, hi, hj⟩ hp hq

/-- The selected link is the second of the pair. -/
theorem after_holds_iff :
    (ordering q p .after).Holds starters d ↔ d.InOrder starters p q := by
  constructor
  · rintro h i j a b hne ha hb ⟨x, hx, hi, hj⟩ hp hq
    exact h x hx j hj i hi hne b a hb ha hq hp
  · intro h x hx j hj i hi hne b a hb ha hq hp
    exact h i j a b hne ha hb ⟨x, hx, hi, hj⟩ hp hq

/-- A link has none of several forbidden companions if it is kept apart from
each of them. -/
theorem forbid_holds_iff : (companion p qs scope .forbid).Holds starters d
    ↔ ∀ q ∈ qs, d.KeptApart starters scope p q := by
  cases scope with
  | domain =>
      constructor
      · rintro h q hq i j a b hne ha hb ⟨x, hx, hi, hj⟩ hp haccepts
        exact h i a ha hp x hx hi ⟨j, b, hb, hne.symm, hj, q, hq, haccepts⟩
      · rintro h i a ha hp x hx hi ⟨j, b, hb, hne, hj, q, hq, haccepts⟩
        exact h q hq i j a b hne.symm ha hb ⟨x, hx, hi, hj⟩ hp haccepts
  | linkage =>
      constructor
      · rintro h q hq i j a b hne ha hb - hp haccepts
        exact h i a ha hp ⟨j, b, hb, hne.symm, trivial, q, hq, haccepts⟩
      · rintro h i a ha hp ⟨j, b, hb, hne, -, q, hq, haccepts⟩
        exact h q hq i j a b hne.symm ha hb trivial hp haccepts

theorem ordering_swap_holds_iff :
    (ordering p q .before).Holds starters d ↔ (ordering q p .after).Holds starters d :=
  before_holds_iff.trans after_holds_iff.symm

theorem forbid_swap_holds_iff : (companion p qs scope .forbid).Holds starters d
    ↔ ∀ q ∈ qs, (companion q [p] scope .forbid).Holds starters d := by
  simp only [forbid_holds_iff, List.mem_singleton, forall_eq]
  constructor
  · intro h q hq
    exact (h q hq).symm
  · intro h q hq
    exact (h q hq).symm

end Check

/-! ## Rule sets of one rule -/

theorem RuleSet.build_singleton {starters : List Starter} {rule : Rule}
    (h : rule.IsUsable starters) : build starters [rule] = .ok ⟨starters, [rule]⟩ := by
  refine checked_eq_ok_iff.mpr ⟨fault?_eq_none_iff.mpr ⟨List.nodup_singleton _, ?_⟩, rfl⟩
  rw [List.forall_mem_singleton]
  exact h

/-- A rule about no kind of domain needs no starter. -/
theorem Rule.isUsable_of_domain?_eq_none {starters : List Starter} {rule : Rule}
    (hdomain : rule.check.domain? = none) (hcompanions : rule.check.lacksCompanions = false) :
    rule.IsUsable starters where
  opened kind hkind := by
    rw [hdomain] at hkind
    cases hkind
  companions := hcompanions

theorem Rule.isUsable_of_ordering {starters : List Starter} {rule : Rule} {p q : Pattern}
    {placement : Placement} (h : rule.check = .ordering p q placement) :
    rule.IsUsable starters :=
  isUsable_of_domain?_eq_none (by rw [h]; rfl) (by rw [h]; rfl)

theorem Rule.isUsable_of_companion {starters : List Starter} {rule : Rule} {p : Pattern}
    {qs : List Pattern} {scope : Scope} {requirement : Requirement} (hqs : qs ≠ [])
    (h : rule.check = .companion p qs scope requirement) : rule.IsUsable starters := by
  refine isUsable_of_domain?_eq_none (by rw [h]; rfl) ?_
  rw [h]
  exact List.isEmpty_eq_false_iff.mpr hqs

namespace Linkage

variable {k : Linkage} {p q : Pattern} {qs : List Pattern} {scope : Scope} {rule rule' : Rule}
  {rules : Pattern → Rule}

theorem analyze_singleton_iff (h : k.isLabeled = true) (starters : List Starter) (rule : Rule) :
    k.analyze ⟨starters, [rule]⟩ = .ok .wellFormed ↔ rule.check.Holds starters k.diagram := by
  rw [analyze_wellFormed_iff_holds h, List.forall_mem_singleton]

/-! ## Orders -/

/-- That links of one pattern come before links of another can be demanded of
either of them. -/
theorem analyze_ordering_swap (h : k.isLabeled = true) (starters : List Starter)
    (hbefore : rule.check = .ordering p q .before) (hafter : rule'.check = .ordering q p .after) :
    RuleSet.build starters [rule] = .ok ⟨starters, [rule]⟩ ∧
    RuleSet.build starters [rule'] = .ok ⟨starters, [rule']⟩ ∧
    (k.analyze ⟨starters, [rule]⟩ = .ok .wellFormed
      ↔ k.analyze ⟨starters, [rule']⟩ = .ok .wellFormed) := by
  refine ⟨RuleSet.build_singleton (Rule.isUsable_of_ordering hbefore),
    RuleSet.build_singleton (Rule.isUsable_of_ordering hafter), ?_⟩
  rw [analyze_singleton_iff h, analyze_singleton_iff h, hbefore, hafter]
  exact Check.ordering_swap_holds_iff

/-- Subjects come before objects. None of the two equal links comes before the
other one, so it does not come after the other one either. -/
theorem analyze_ordering_swap_twoSubjects : Sample.twoSubjects.isLabeled = true ∧
    Sample.twoSubjects.analyze ⟨Sample.subjectStarters,
      [Sample.orderRule Sample.objectPattern Sample.subjectPattern .after]⟩ = .ok .wellFormed ∧
    Sample.twoSubjects.analyze ⟨Sample.subjectStarters,
      [Sample.orderRule Sample.subjectPattern Sample.subjectPattern .after]⟩
        ≠ .ok .wellFormed := by
  have hobject : Sample.twoSubjects.analyze ⟨Sample.subjectStarters,
      [Sample.orderRule Sample.subjectPattern Sample.objectPattern .before]⟩
        = .ok .wellFormed := by decide +kernel
  have hself : Sample.twoSubjects.analyze ⟨Sample.subjectStarters,
      [Sample.orderRule Sample.subjectPattern Sample.subjectPattern .before]⟩
        ≠ .ok .wellFormed := by decide +kernel
  have hlabeled := Sample.isLabeled_twoSubjects
  exact ⟨hlabeled, (analyze_ordering_swap hlabeled Sample.subjectStarters rfl rfl).2.2.mp hobject,
    (analyze_ordering_swap hlabeled Sample.subjectStarters rfl rfl).2.2.not.mp hself⟩

/-! ## Forbidden companions -/

/-- That links of one pattern have no companions of others can be demanded of
these, each by a rule of its own. -/
theorem analyze_forbid_swap (h : k.isLabeled = true) (starters : List Starter) (hqs : qs ≠ [])
    (hrule : rule.check = .companion p qs scope .forbid)
    (hrules : ∀ q ∈ qs, (rules q).check = .companion q [p] scope .forbid) :
    RuleSet.build starters [rule] = .ok ⟨starters, [rule]⟩ ∧
    (∀ q ∈ qs, RuleSet.build starters [rules q] = .ok ⟨starters, [rules q]⟩) ∧
    (k.analyze ⟨starters, [rule]⟩ = .ok .wellFormed
      ↔ ∀ q ∈ qs, k.analyze ⟨starters, [rules q]⟩ = .ok .wellFormed) := by
  refine ⟨RuleSet.build_singleton (Rule.isUsable_of_companion hqs hrule), fun q hq =>
    RuleSet.build_singleton (Rule.isUsable_of_companion (List.cons_ne_nil p []) (hrules q hq)), ?_⟩
  rw [analyze_singleton_iff h, hrule, Check.forbid_swap_holds_iff]
  refine forall₂_congr fun q hq => ?_
  rw [analyze_singleton_iff h, hrules q hq]

/-- The determiner is in no domain, and the only link with its pattern, so it
has no companion in a domain. In the linkage it has. -/
theorem analyze_forbid_swap_twoSubjects : Sample.twoSubjects.isLabeled = true ∧
    (∀ q ∈ [Sample.determinerPattern, Sample.subjectPattern],
      Sample.twoSubjects.analyze ⟨Sample.subjectStarters,
        [Sample.forbidRule .domain [Sample.determinerPattern] q]⟩ = .ok .wellFormed) ∧
    ¬∀ q ∈ [Sample.determinerPattern, Sample.subjectPattern],
      Sample.twoSubjects.analyze ⟨Sample.subjectStarters,
        [Sample.forbidRule .linkage [Sample.determinerPattern] q]⟩ = .ok .wellFormed := by
  have hdomain : Sample.twoSubjects.analyze ⟨Sample.subjectStarters, [Sample.forbidRule .domain
      [Sample.determinerPattern, Sample.subjectPattern] Sample.determinerPattern]⟩
        = .ok .wellFormed := by decide +kernel
  have hlinkage : Sample.twoSubjects.analyze ⟨Sample.subjectStarters, [Sample.forbidRule .linkage
      [Sample.determinerPattern, Sample.subjectPattern] Sample.determinerPattern]⟩
        ≠ .ok .wellFormed := by decide +kernel
  have hlabeled := Sample.isLabeled_twoSubjects
  have hne := List.cons_ne_nil Sample.determinerPattern [Sample.subjectPattern]
  exact ⟨hlabeled,
    (analyze_forbid_swap hlabeled Sample.subjectStarters hne rfl fun _ _ => rfl).2.2.mp hdomain,
    (analyze_forbid_swap hlabeled Sample.subjectStarters hne rfl fun _ _ => rfl).2.2.not.mp
      hlinkage⟩

end Linkage

end LinkParse
