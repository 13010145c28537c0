import LinkParse.Proofs.Validity
import LinkParse.Proofs.Verdict
import Mathlib.Order.WithBot

/-!
# Rule sets put together

The verdict on the rules of two sets, one behind the other, follows from the
verdicts on each (`analyze_build_append`). Where both are violated the earlier
place decides: a shortfall of links comes before all links, and links come in
canonical order. At one place the first set decides.

An analysis is read as one scan over the places (`violation?_analyze`). At
each place the rules of the first set come before those of the second, and a
scan for either of two answers finds the earlier of the two first answers
(`findSome?_or`).
-/

namespace LinkParse

/-! ## Rules to try -/

namespace Sample

def wallPattern : Pattern := (Pattern.make "W").toOption.get (by decide +kernel)

def clauseStarters : List Starter := [{ pattern := clausePattern, domain := "clause" }]

/-- Clauses may not cross. -/
def crossingRules : List Rule :=
  [{ id := ⟨"clause", "no-crossing"⟩, check := .containment "clause" [] }]

/-- A link to the wall must be on a cycle. -/
def wallRules : List Rule := [{ id := ⟨"wall", "cycle"⟩, check := .cycle wallPattern }]

def crossingViolation : Violation :=
  ⟨⟨"clause", "no-crossing"⟩, some 1,
    "clause domain opened by Cb (1, 5) crosses clause domain opened by Ca (0, 3)"⟩

def wallViolation : Violation := ⟨⟨"wall", "cycle"⟩, some 2, "Wd (0, 1) is not part of a cycle"⟩

end Sample

/-! ## Two scans in one -/

section Scans

variable {α β κ : Type} [LinearOrder κ] {key : α → κ} {place : β → κ} {f g : α → Option β}

/-- The value at the earlier place, and of two at one place the first. -/
def earlierBy (place : β → κ) (a b : β) : β := if place b < place a then b else a

theorem merge_earlierBy_some_left {a : β} {o : Option β}
    (h : ∀ b, o = some b → ¬place b < place a) : (some a).merge (earlierBy place) o = some a := by
  cases o with
  | none => rfl
  | some b => exact congrArg some (if_neg (h b rfl))

theorem merge_earlierBy_some_right {b : β} {o : Option β}
    (h : ∀ a, o = some a → place b < place a) : o.merge (earlierBy place) (some b) = some b := by
  cases o with
  | none => rfl
  | some a => exact congrArg some (if_pos (h a rfl))

/-- What a scan finds behind an element has a later place. -/
theorem lt_place_of_findSome? {x : α} {xs : List α} {b : β} (hxs : ∀ y ∈ xs, key x < key y)
    (hf : ∀ y ∈ xs, ∀ b, f y = some b → place b = key y) (hb : xs.findSome? f = some b) :
    key x < place b := by
  obtain ⟨y, hy, hyb⟩ := List.exists_of_findSome?_eq_some hb
  rw [hf y hy b hyb]
  exact hxs y hy

/-- A scan for either of two answers finds the one at the earlier place, and
of two at one place the first. -/
theorem findSome?_or : ∀ {xs : List α}, xs.Pairwise (fun x y => key x < key y) →
    (∀ x ∈ xs, ∀ b, f x = some b → place b = key x) →
    (∀ x ∈ xs, ∀ b, g x = some b → place b = key x) →
    xs.findSome? (fun x => (f x).or (g x))
      = (xs.findSome? f).merge (earlierBy place) (xs.findSome? g)
  | [], _, _, _ => rfl
  | x :: xs, hxs, hf, hg => by
      rw [List.pairwise_cons] at hxs
      rw [List.forall_mem_cons] at hf hg
      cases hfx : f x with
      | some a =>
          have hfirst : ∀ b, (x :: xs).findSome? g = some b → ¬place b < place a := by
            intro b hb
            rw [hf.1 a hfx]
            rw [List.findSome?_cons] at hb
            cases hgx : g x with
            | some c =>
                rw [hgx] at hb
                obtain rfl : c = b := Option.some.inj hb
                exact (hg.1 c hgx).not_lt
            | none =>
                rw [hgx] at hb
                exact (lt_place_of_findSome? hxs.1 hg.2 hb).not_gt
          rw [List.findSome?_cons, List.findSome?_cons, hfx]
          exact (merge_earlierBy_some_left hfirst).symm
      | none =>
          rw [List.findSome?_cons, List.findSome?_cons, List.findSome?_cons, hfx]
          cases hgx : g x with
          | some b =>
              refine (merge_earlierBy_some_right fun a ha => ?_).symm
              rw [hg.1 b hgx]
              exact lt_place_of_findSome? hxs.1 hf.2 ha
          | none => exact findSome?_or hxs.2 hf.2 hg.2

end Scans

/-! ## The places of an analysis -/

/-- Before all links, or an arc with its index. -/
abbrev Diagram.Place := Option (Arc × Nat)

namespace Diagram

/-- The places that an analysis goes through, in this order. -/
def places (d : Diagram) : List Place := none :: d.canonical.map some

def Place.key : Place → WithBot (Nat ×ₗ Nat)
  | none => ⊥
  | some p => (toLex (p.1.left, p.2) : Nat ×ₗ Nat)

/-- Where a violation is found: before all links, or at the link that it
blames. -/
def placeOf (d : Diagram) (v : Violation) : WithBot (Nat ×ₗ Nat) :=
  match v.link with
  | none => ⊥
  | some i => (toLex ((d.arcs[i]?.map Arc.left).getD 0, i) : Nat ×ₗ Nat)

theorem pairwise_places (d : Diagram) : d.places.Pairwise fun x y => x.key < y.key := by
  unfold places
  rw [List.pairwise_cons, List.pairwise_map]
  constructor
  · intro y hy
    obtain ⟨p, -, rfl⟩ := List.mem_map.mp hy
    exact WithBot.bot_lt_coe _
  · exact d.pairwise_canonical.imp fun {p q} hlt => WithBot.coe_lt_coe.mpr hlt

end Diagram

namespace Rule

/-- What a rule has to object at a place. -/
def violationOn? (rule : Rule) (t : DomainTable) : Diagram.Place → Option Violation
  | none => rule.shortfall? t.diagram
  | some p => rule.violationAt? t p.1 p.2

/-- A violation tells the place where it is found. -/
theorem placeOf_of_violationOn? {rule : Rule} {rules : RuleSet} {d : Diagram} {v : Violation} :
    ∀ {x : Diagram.Place}, x ∈ d.places →
      rule.violationOn? (DomainTable.ofDiagram rules d) x = some v → d.placeOf v = x.key
  | none, _, hv => by
      unfold Diagram.placeOf
      rw [(shortfall?_eq_some hv).1]
      rfl
  | some (a, i), hx, hv => by
      have ha : d.arcs[i]? = some a := by
        unfold Diagram.places at hx
        simpa [Diagram.mem_canonical] using hx
      unfold Diagram.placeOf
      rw [(violationAt?_eq_some hv).1]
      simp [ha, Diagram.Place.key]

end Rule

namespace Diagram

/-- The analysis is one scan over the places, at each over the rules. -/
theorem violation?_analyze (d : Diagram) (rules : RuleSet) : (d.analyze rules).violation?
    = d.places.findSome? fun x =>
      rules.rules.findSome? (·.violationOn? (DomainTable.ofDiagram rules d) x) := by
  have hbefore : rules.rules.findSome? (·.violationOn? (DomainTable.ofDiagram rules d) none)
      = rules.rules.findSome? (·.shortfall? d) := rfl
  unfold analyze places
  rw [List.findSome?_cons, hbefore, List.findSome?_map]
  cases rules.rules.findSome? (·.shortfall? d) with
  | some v => rfl
  | none =>
      dsimp only
      split
      · next v hfound => exact hfound.symm
      · next hnone => exact hnone.symm

end Diagram

/-! ## Verdicts put together -/

theorem Verdict.violation?_injective : Function.Injective Verdict.violation? := by
  intro v w h
  cases v with
  | wellFormed =>
      cases w with
      | wellFormed => rfl
      | violated w => cases h
  | violated v =>
      cases w with
      | wellFormed => cases h
      | violated w => exact congrArg violated (Option.some.inj h)

namespace Diagram

/-- The verdict on two rule sets together, from the verdicts on each. -/
def composed (d : Diagram) : Verdict → Verdict → Verdict
  | .wellFormed, w => w
  | v, .wellFormed => v
  | .violated v, .violated w => .violated (earlierBy d.placeOf v w)

theorem violation?_composed (d : Diagram) (v w : Verdict) : (d.composed v w).violation?
    = v.violation?.merge (earlierBy d.placeOf) w.violation? := by
  cases v with
  | wellFormed =>
      cases w with
      | wellFormed => rfl
      | violated w => rfl
  | violated v =>
      cases w with
      | wellFormed => rfl
      | violated w => rfl

theorem composed_eq_wellFormed_iff {d : Diagram} {v w : Verdict} :
    d.composed v w = .wellFormed ↔ v = .wellFormed ∧ w = .wellFormed := by
  cases v <;> cases w <;> simp [composed]

theorem placeOf_of_findSome? {rules : RuleSet} {d : Diagram} : ∀ x ∈ d.places, ∀ v,
    rules.rules.findSome? (·.violationOn? (DomainTable.ofDiagram rules d) x) = some v →
      d.placeOf v = x.key := by
  intro x hx v hv
  obtain ⟨rule, -, hrule⟩ := List.exists_of_findSome?_eq_some hv
  exact Rule.placeOf_of_violationOn? hx hrule

theorem analyze_append (d : Diagram) (starters : List Starter) (r₁ r₂ : List Rule) :
    d.analyze ⟨starters, r₁ ++ r₂⟩
      = d.composed (d.analyze ⟨starters, r₁⟩) (d.analyze ⟨starters, r₂⟩) := by
  apply Verdict.violation?_injective
  -- all three analyses have one table, since domains depend on the starters only
  have hfirst : DomainTable.ofDiagram ⟨starters, r₁⟩ d
      = DomainTable.ofDiagram ⟨starters, r₁ ++ r₂⟩ d := rfl
  have hsecond : DomainTable.ofDiagram ⟨starters, r₂⟩ d
      = DomainTable.ofDiagram ⟨starters, r₁ ++ r₂⟩ d := rfl
  rw [violation?_composed, violation?_analyze, violation?_analyze, violation?_analyze]
  rw [← findSome?_or d.pairwise_places placeOf_of_findSome? placeOf_of_findSome?, hfirst, hsecond]
  exact findSome?_congr fun x _ => List.findSome?_append

end Diagram

/-- Rules that can be used together can be used by themselves. -/
theorem RuleSet.build_append_eq_ok {starters : List Starter} {r₁ r₂ : List Rule} {s : RuleSet}
    (h : build starters (r₁ ++ r₂) = .ok s) :
    s = ⟨starters, r₁ ++ r₂⟩ ∧ build starters r₁ = .ok ⟨starters, r₁⟩ ∧
      build starters r₂ = .ok ⟨starters, r₂⟩ := by
  obtain ⟨hfault, rfl⟩ := checked_eq_ok_iff.mp h
  obtain ⟨hnodup, husable⟩ := fault?_eq_none_iff.mp hfault
  rw [List.map_append, List.nodup_append] at hnodup
  rw [List.forall_mem_append] at husable
  exact ⟨rfl, checked_eq_ok_iff.mpr ⟨fault?_eq_none_iff.mpr ⟨hnodup.1, husable.1⟩, rfl⟩,
    checked_eq_ok_iff.mpr ⟨fault?_eq_none_iff.mpr ⟨hnodup.2.1, husable.2⟩, rfl⟩⟩

namespace Linkage

variable {k : Linkage} {starters : List Starter} {r₁ r₂ : List Rule} {s : RuleSet}

/-- The verdict on a labeled linkage by two lists of rules together is composed
of the verdicts by each of them, with the same starters. -/
theorem analyze_build_append (h : k.isLabeled = true)
    (hs : RuleSet.build starters (r₁ ++ r₂) = .ok s) :
    ∃ s₁ s₂ v₁ v₂, RuleSet.build starters r₁ = .ok s₁ ∧ RuleSet.build starters r₂ = .ok s₂ ∧
      k.analyze s₁ = .ok v₁ ∧ k.analyze s₂ = .ok v₂ ∧
      k.analyze s = .ok (k.diagram.composed v₁ v₂) ∧
      (k.analyze s = .ok .wellFormed ↔ v₁ = .wellFormed ∧ v₂ = .wellFormed) := by
  obtain ⟨rfl, h₁, h₂⟩ := RuleSet.build_append_eq_ok hs
  have hboth : k.analyze ⟨starters, r₁ ++ r₂⟩ = .ok (k.diagram.composed
      (k.diagram.analyze ⟨starters, r₁⟩) (k.diagram.analyze ⟨starters, r₂⟩)) := by
    rw [analyze_of_isLabeled h, Diagram.analyze_append]
  refine ⟨_, _, _, _, h₁, h₂, analyze_of_isLabeled h _, analyze_of_isLabeled h _, hboth, ?_⟩
  rw [hboth, Except.ok.injEq, Diagram.composed_eq_wellFormed_iff]

/-- The link to the wall has the greater index, but a smaller left word than
the second clause. -/
theorem analyze_build_append_crossing : Sample.crossing.isLabeled = true ∧
    ∃ s, RuleSet.build Sample.clauseStarters (Sample.crossingRules ++ Sample.wallRules) = .ok s ∧
      Sample.crossing.analyze ⟨Sample.clauseStarters, Sample.crossingRules⟩
        = .ok (.violated Sample.crossingViolation) ∧
      Sample.crossing.analyze ⟨Sample.clauseStarters, Sample.wallRules⟩
        = .ok (.violated Sample.wallViolation) ∧
      Sample.crossing.analyze s = .ok (.violated Sample.wallViolation) := by
  have hs : RuleSet.build Sample.clauseStarters (Sample.crossingRules ++ Sample.wallRules)
      = .ok ⟨Sample.clauseStarters, Sample.crossingRules ++ Sample.wallRules⟩ := by decide +kernel
  have hcrossing : Sample.crossing.analyze ⟨Sample.clauseStarters, Sample.crossingRules⟩
      = .ok (.violated Sample.crossingViolation) := by decide +kernel
  have hwall : Sample.crossing.analyze ⟨Sample.clauseStarters, Sample.wallRules⟩
      = .ok (.violated Sample.wallViolation) := by decide +kernel
  have hcomposed : Sample.crossing.diagram.composed (.violated Sample.crossingViolation)
      (.violated Sample.wallViolation) = .violated Sample.wallViolation := by decide +kernel
  obtain ⟨s₁, s₂, v₁, v₂, h₁, h₂, hv₁, hv₂, hboth, -⟩ :=
    analyze_build_append Sample.isLabeled_crossing hs
  obtain ⟨-, h₁', h₂'⟩ := RuleSet.build_append_eq_ok hs
  obtain rfl := Except.ok.inj (h₁.symm.trans h₁')
  obtain rfl := Except.ok.inj (h₂.symm.trans h₂')
  obtain rfl := Except.ok.inj (hv₁.symm.trans hcrossing)
  obtain rfl := Except.ok.inj (hv₂.symm.trans hwall)
  exact ⟨Sample.isLabeled_crossing, _, hs, hcrossing, hwall, hcomposed ▸ hboth⟩

end Linkage

end LinkParse
