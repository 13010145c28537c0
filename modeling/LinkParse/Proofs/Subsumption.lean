import LinkParse.Proofs.Lists
import LinkParse.Proofs.Matching
import LinkParse.Proofs.Verdict

/-!
# Patterns that cover each other

One pattern accepts every label that another one accepts exactly if it accepts
the other one's text. So a question about all labels is answered by one
(`Pattern.accepts_text_iff`). Matching is transitive on any sequences of bytes:
a definite position of the first is the same in the second, and then in what
the second accepts; and where the second has ended, the first has wildcards
only (`Pattern.acceptsSubtypes_trans`).

A starter behind one that covers it is never the one that decides. Domains
depend on the starters only through the ones that decide, so they are the same
without it, and so are all verdicts (`RuleSet.covered_starter_is_idle`).
-/

namespace LinkParse

/-! ## Patterns -/

namespace Pattern

theorem acceptsSubtypes_trans : ∀ {ps qs ts : List UInt8}, acceptsSubtypes ps qs = true →
    acceptsSubtypes qs ts = true → acceptsSubtypes ps ts = true
  | [], _, _, _, _ => rfl
  | p :: ps, [], ts, hpq, _ => by
      rw [acceptsSubtypes_cons] at hpq ⊢
      have hwild : p = wildcardByte := by simpa using hpq.1
      exact ⟨.inl hwild, acceptsSubtypes_trans hpq.2 rfl⟩
  | p :: ps, q :: qs, ts, hpq, hqt => by
      rw [acceptsSubtypes_cons] at hpq hqt ⊢
      refine ⟨?_, acceptsSubtypes_trans hpq.2 hqt.2⟩
      rcases hpq.1 with hwild | hsame
      · exact .inl hwild
      · obtain rfl : q = p := Option.some.inj hsame
        exact hqt.1

theorem acceptsBytes_trans {ps qs ts : List UInt8} (hpq : acceptsBytes ps qs = true)
    (hqt : acceptsBytes qs ts = true) : acceptsBytes ps ts = true := by
  rw [acceptsBytes_iff] at hpq hqt ⊢
  exact ⟨hpq.1.trans hqt.1, acceptsSubtypes_trans hpq.2 hqt.2⟩

/-- Of all labels that a pattern accepts, its own text is the hardest one for
other patterns. -/
theorem accepts_text_iff {p q : Pattern} : p.accepts q.text = true
    ↔ ∀ label, q.accepts label = true → p.accepts label = true := by
  constructor
  · intro hpq label hlabel
    exact acceptsBytes_trans hpq hlabel
  · intro hall
    exact hall q.text q.accepts_text

end Pattern

/-! ## Starters that decide -/

/-- What starters do is told by which of them decides about each label. -/
theorem DomainTable.ofDiagram_congr {s t : RuleSet}
    (h : ∀ label, s.starterFor? label = t.starterFor? label) (d : Diagram) :
    ofDiagram s d = ofDiagram t d := by
  unfold ofDiagram
  simp only [h]

theorem Diagram.analyze_congr {s t : RuleSet} (hrules : s.rules = t.rules)
    (h : ∀ label, s.starterFor? label = t.starterFor? label) (d : Diagram) :
    d.analyze s = d.analyze t := by
  unfold analyze
  rw [hrules, DomainTable.ofDiagram_congr h]

theorem Linkage.domainTable_congr {s t : RuleSet}
    (h : ∀ label, s.starterFor? label = t.starterFor? label) (k : Linkage) :
    k.domainTable s = k.domainTable t := by
  unfold domainTable
  simp only [DomainTable.ofDiagram_congr h]

theorem Linkage.analyze_congr {s t : RuleSet} (hrules : s.rules = t.rules)
    (h : ∀ label, s.starterFor? label = t.starterFor? label) (k : Linkage) :
    k.analyze s = k.analyze t := by
  unfold analyze
  simp only [Diagram.analyze_congr hrules h]

namespace RuleSet

variable {s : RuleSet} {j : Nat} {label : String}

/-- The number of the starter that decides about a label. -/
def starterIndex? (s : RuleSet) (label : String) : Option Nat :=
  s.starters.findIdx? (·.pattern.accepts label)

theorem starterFor?_eq (s : RuleSet) (label : String) :
    s.starterFor? label = (s.starterIndex? label).bind (s.starters[·]?) :=
  List.find?_eq_bind_findIdx?_getElem?

/-- The rule set without the starter with a number. -/
def withoutStarter (s : RuleSet) (j : Nat) : RuleSet :=
  { s with starters := s.starters.eraseIdx j }

/-- The starter with the number stands behind one that accepts the text of its
pattern. -/
def IsCovered (s : RuleSet) (j : Nat) : Prop :=
  ∃ i < j, ∃ first second, s.starters[i]? = some first ∧ s.starters[j]? = some second ∧
    first.pattern.accepts second.pattern.text = true

/-- An earlier starter accepts whatever a covered one accepts. -/
theorem IsCovered.exists_earlier (h : s.IsCovered j) {second : Starter}
    (hsecond : s.starters[j]? = some second) (hlabel : second.pattern.accepts label = true) :
    ∃ i < j, ∃ first, s.starters[i]? = some first ∧ first.pattern.accepts label = true := by
  obtain ⟨i, hij, first, other, hfirst, hother, hcovers⟩ := h
  obtain rfl := Option.some.inj (hsecond.symm.trans hother)
  exact ⟨i, hij, first, hfirst, Pattern.accepts_text_iff.mp hcovers label hlabel⟩

theorem IsCovered.starterIndex?_ne (h : s.IsCovered j) : s.starterIndex? label ≠ some j := by
  intro hindex
  obtain ⟨hj, hlabel, hbefore⟩ := List.findIdx?_eq_some_iff_getElem.mp hindex
  obtain ⟨i, hij, first, hfirst, haccepts⟩ :=
    h.exists_earlier (List.getElem?_eq_getElem hj) hlabel
  obtain ⟨hi, rfl⟩ := List.getElem?_eq_some_iff.mp hfirst
  exact hbefore i hij haccepts

theorem IsCovered.starterFor?_withoutStarter (h : s.IsCovered j) (label : String) :
    (s.withoutStarter j).starterFor? label = s.starterFor? label :=
  find?_eraseIdx_of_earlier fun _ hsecond hlabel => h.exists_earlier hsecond hlabel

/-- That a pattern covers another one is seen from the other one's text. In a
rule set a starter whose pattern is covered by that of an earlier one decides
about no label, and without it all domains and verdicts are the same. -/
theorem covered_starter_is_idle :
    (∀ p q : Pattern, p.accepts q.text = true
      ↔ ∀ label, q.accepts label = true → p.accepts label = true) ∧
    ∀ (s : RuleSet) (j : Nat), s.IsCovered j →
      (∀ label, s.starterFor? label = (s.starterIndex? label).bind (s.starters[·]?) ∧
        s.starterIndex? label ≠ some j ∧
        (s.withoutStarter j).starterFor? label = s.starterFor? label) ∧
      ∀ k : Linkage, k.domainTable (s.withoutStarter j) = k.domainTable s ∧
        k.analyze (s.withoutStarter j) = k.analyze s := by
  refine ⟨fun p q => Pattern.accepts_text_iff, fun s j h => ⟨fun label => ?_, fun k => ?_⟩⟩
  · exact ⟨s.starterFor?_eq label, h.starterIndex?_ne, h.starterFor?_withoutStarter label⟩
  · have hrules : (s.withoutStarter j).rules = s.rules := rfl
    exact ⟨Linkage.domainTable_congr h.starterFor?_withoutStarter k,
      Linkage.analyze_congr hrules h.starterFor?_withoutStarter k⟩

end RuleSet

/-! ## A starter to leave out -/

namespace Sample

def openPattern : Pattern := (Pattern.make "C*").toOption.get (by decide +kernel)

/-- The second starter would open smaller domains of another kind. Its pattern
is shorter than the first one's, but what it leaves open is a wildcard there. -/
def coveredAside : RuleSet where
  starters := [{ pattern := openPattern, domain := "clause" },
    { pattern := clausePattern, domain := "aside", reach := .rightWordOnly }]
  rules := clauseChecks.rules

theorem isCovered_aside : coveredAside.IsCovered 1 :=
  ⟨0, Nat.zero_lt_one, _, _, rfl, rfl, by decide +kernel⟩

end Sample

/-- Two clauses cross, as they do without the second starter. Asides would be
allowed to. -/
theorem RuleSet.covered_starter_is_idle_aside : Sample.coveredAside.IsCovered 1 ∧
    Sample.coveredAside.starterIndex? "Ca" ≠ some 1 ∧
    Sample.crossing.analyze Sample.coveredAside ≠ .ok .wellFormed := by
  obtain ⟨-, hidle⟩ := covered_starter_is_idle
  obtain ⟨hlabels, hlinkages⟩ := hidle Sample.coveredAside 1 Sample.isCovered_aside
  have hwithout : Sample.crossing.analyze (Sample.coveredAside.withoutStarter 1)
      ≠ .ok .wellFormed := by decide +kernel
  rw [(hlinkages Sample.crossing).2] at hwithout
  exact ⟨Sample.isCovered_aside, (hlabels "Ca").2.1, hwithout⟩

end LinkParse
