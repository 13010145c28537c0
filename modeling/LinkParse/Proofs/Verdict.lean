import LinkParse.Proofs.Objection
import LinkParse.Sample

/-!
# What a verdict says

`Diagram.Judged` lists the three ways in which an analysis ends, each with
all that is known then; `judged_analyze` opens the analysis for what follows
here. A rule that asks for more links than there are decides before all
links, and of the pairs of a link and a rule that fails there the first one
decides: by the link's left word, then by its index, then by the position of
the rule.

From this follow the two main statements about a labeled linkage: it is
well formed exactly if every rule holds as a statement
(`analyze_wellFormed_iff_holds`), and what a violation blames is the first
that could be blamed (`violated_blames_first`).
-/

namespace LinkParse

/-- The rule asks for more links than the diagram has. -/
def Rule.AsksForMore (rule : Rule) (d : Diagram) : Prop :=
  ∃ count, rule.check = .minimumLinks count ∧ d.arcs.length < count

/-- The positions of the rules that ask for more links than there are. -/
def Diagram.shortfalls (d : Diagram) (rules : RuleSet) : Set Nat :=
  {p | ∃ rule, rules.rules[p]? = some rule ∧ rule.AsksForMore d}

/-- The places where a rule fails at a link: the link's left word and index
with the position of the rule. -/
def Diagram.failures (d : Diagram) (rules : RuleSet) : Set (Nat ×ₗ Nat ×ₗ Nat) :=
  {place | ∃ i a p rule, d.arcs[i]? = some a ∧ rules.rules[p]? = some rule ∧
    rule.check.FailsAt rules.starters d i ∧ place = toLex (a.left, toLex (i, p))}

/-! ## One rule -/

namespace Rule

variable {rule : Rule} {d : Diagram} {v : Violation}

theorem shortfall?_eq_none_iff : rule.shortfall? d = none ↔ ¬rule.AsksForMore d := by
  unfold shortfall? AsksForMore
  cases hcheck : rule.check with
  | minimumLinks count =>
      by_cases hlt : d.arcs.length < count
      · simp [hlt]
      · simp [hlt]
  | containment kind allow => simp
  | bounded kind => simp
  | ordering selector anchor placement => simp
  | companion selector companions scope requirement => simp
  | cycle selector => simp
  | connected => simp

theorem shortfall?_eq_some (h : rule.shortfall? d = some v) : v.link = none ∧ v.rule = rule.id := by
  unfold shortfall? at h
  split at h
  · obtain ⟨-, heq⟩ := Option.ite_none_right_eq_some.mp h
    obtain rfl := Option.some.inj heq
    exact ⟨rfl, rfl⟩
  · cases h

variable {rules : RuleSet} {a : Arc} {i : Nat}

theorem violationAt?_eq_none_iff (ha : d.arcs[i]? = some a) :
    rule.violationAt? (DomainTable.ofDiagram rules d) a i = none
      ↔ ¬rule.check.FailsAt rules.starters d i := by
  unfold violationAt?
  rw [Option.map_eq_none_iff, ← DomainTable.isSome_objection?_iff ha, Bool.not_eq_true,
    Option.isSome_eq_false_iff, Option.isNone_iff_eq_none]

theorem violationAt?_eq_some {t : DomainTable} (h : rule.violationAt? t a i = some v) :
    v.link = some i ∧ v.rule = rule.id := by
  obtain ⟨o, -, rfl⟩ := Option.map_eq_some_iff.mp h
  exact ⟨rfl, rfl⟩

theorem failsAt_of_violationAt? (ha : d.arcs[i]? = some a)
    (h : rule.violationAt? (DomainTable.ofDiagram rules d) a i = some v) :
    rule.check.FailsAt rules.starters d i := by
  by_contra hnot
  rw [(violationAt?_eq_none_iff ha).mpr hnot] at h
  cases h

end Rule

/-! ## The analysis -/

namespace Diagram

/-- What is known of a diagram and a rule set when their verdict is given. -/
inductive Judged (d : Diagram) (rules : RuleSet) : Verdict → Prop where
  /-- No rule asks for more links, and none fails at any. -/
  | wellFormed (hshort : d.shortfalls rules = ∅) (hfail : d.failures rules = ∅) :
      Judged d rules .wellFormed
  /-- The first rule that asks for more links is reported. -/
  | tooFew {p : Nat} {rule : Rule} {v : Violation} (hp : IsLeast (d.shortfalls rules) p)
      (hrule : rules.rules[p]? = some rule) (hv : rule.shortfall? d = some v) :
      Judged d rules (.violated v)
  /-- The first place where a rule fails at a link is reported. -/
  | blamed {i p : Nat} {a : Arc} {rule : Rule} {v : Violation} (hshort : d.shortfalls rules = ∅)
      (ha : d.arcs[i]? = some a) (hrule : rules.rules[p]? = some rule)
      (hleast : IsLeast (d.failures rules) (toLex (a.left, toLex (i, p))))
      (hv : rule.violationAt? (DomainTable.ofDiagram rules d) a i = some v) :
      Judged d rules (.violated v)

variable {d : Diagram} {rules : RuleSet}

theorem shortfalls_eq_empty_iff :
    d.shortfalls rules = ∅ ↔ ∀ rule ∈ rules.rules, ¬rule.AsksForMore d := by
  rw [Set.eq_empty_iff_forall_notMem]
  constructor
  · intro hnone rule hrule hmore
    obtain ⟨p, hp⟩ := List.mem_iff_getElem?.mp hrule
    exact hnone p ⟨rule, hp, hmore⟩
  · rintro hnone p ⟨rule, hp, hmore⟩
    exact hnone rule (List.mem_of_getElem? hp) hmore

theorem mem_failures_iff {w i p : Nat} : toLex (w, toLex (i, p)) ∈ d.failures rules
    ↔ ∃ a rule, d.arcs[i]? = some a ∧ rules.rules[p]? = some rule ∧
      rule.check.FailsAt rules.starters d i ∧ w = a.left := by
  constructor
  · rintro ⟨j, a, q, rule, ha, hrule, hfails, heq⟩
    have hplace := toLex_inj.mp heq
    obtain ⟨rfl, rfl⟩ := Prod.mk.inj (toLex_inj.mp (Prod.mk.inj hplace).2)
    exact ⟨a, rule, ha, hrule, hfails, (Prod.mk.inj hplace).1⟩
  · rintro ⟨a, rule, ha, hrule, hfails, rfl⟩
    exact ⟨i, a, p, rule, ha, hrule, hfails, rfl⟩

theorem failures_eq_empty_iff : d.failures rules = ∅
    ↔ ∀ rule ∈ rules.rules, ∀ i a, d.arcs[i]? = some a →
      ¬rule.check.FailsAt rules.starters d i := by
  rw [Set.eq_empty_iff_forall_notMem]
  constructor
  · intro hnone rule hrule i a ha hfails
    obtain ⟨p, hp⟩ := List.mem_iff_getElem?.mp hrule
    exact hnone _ ⟨i, a, p, rule, ha, hp, hfails, rfl⟩
  · rintro hnone _ ⟨i, a, p, rule, ha, hp, hfails, rfl⟩
    exact hnone rule (List.mem_of_getElem? hp) i a ha hfails

/-- The first rule with a shortfall is the least of the positions that have
one. -/
theorem judged_of_findSome?_shortfall? {v : Violation}
    (h : rules.rules.findSome? (·.shortfall? d) = some v) : Judged d rules (.violated v) := by
  obtain ⟨p, rule, hp, hv, hbefore⟩ := getElem?_of_findSome?_eq_some h
  have hmore : rule.AsksForMore d := by
    by_contra hnot
    rw [Rule.shortfall?_eq_none_iff.mpr hnot] at hv
    cases hv
  refine .tooFew ⟨⟨rule, hp, hmore⟩, ?_⟩ hp hv
  rintro q ⟨other, hq, hother⟩
  by_contra hlt
  exact Rule.shortfall?_eq_none_iff.mp (hbefore q (Nat.not_le.mp hlt) other hq) hother

/-- The first link in canonical order at which a rule fails, with the first
rule that does, is the least place of a failure. -/
theorem judged_of_findSome?_canonical {v : Violation} (hshort : d.shortfalls rules = ∅)
    (h : (d.canonical.findSome? fun (a, i) =>
      rules.rules.findSome? (·.violationAt? (DomainTable.ofDiagram rules d) a i)) = some v) :
    Judged d rules (.violated v) := by
  obtain ⟨before, ⟨a, i⟩, after, hsplit, hfound, hbefore⟩ := List.findSome?_eq_some_iff.mp h
  obtain ⟨p, rule, hp, hv, hearlier⟩ := getElem?_of_findSome?_eq_some hfound
  have ha : d.arcs[i]? = some a := by
    rw [← mem_canonical, hsplit]
    simp
  have hfails := Rule.failsAt_of_violationAt? ha hv
  refine .blamed hshort ha hp ⟨⟨i, a, p, rule, ha, hp, hfails, rfl⟩, ?_⟩ hv
  rintro _ ⟨j, b, q, other, hb, hq, hother, rfl⟩
  -- the other link stands before the blamed one, is the same, or stands behind it
  have hmem : (b, j) ∈ before ++ (a, i) :: after := hsplit ▸ mem_canonical.mpr hb
  rcases List.mem_append.mp hmem with hin | hin
  · have hnone := List.findSome?_eq_none_iff.mp (hbefore _ hin) other (List.mem_of_getElem? hq)
    exact absurd hother ((Rule.violationAt?_eq_none_iff hb).mp hnone)
  · rcases List.mem_cons.mp hin with heq | hin
    · obtain ⟨rfl, rfl⟩ := Prod.mk.inj heq
      have hpq : p ≤ q := by
        by_contra hlt
        exact (Rule.violationAt?_eq_none_iff hb).mp (hearlier q (Nat.not_le.mp hlt) other hq) hother
      rw [Prod.Lex.toLex_le_toLex, Prod.Lex.toLex_le_toLex]
      exact Or.inr ⟨rfl, Or.inr ⟨rfl, hpq⟩⟩
    · have hpair := d.pairwise_canonical
      rw [hsplit, List.pairwise_append, List.pairwise_cons] at hpair
      have hlt := hpair.2.1.1 _ hin
      rw [Prod.Lex.toLex_lt_toLex] at hlt
      rw [Prod.Lex.toLex_le_toLex, Prod.Lex.toLex_le_toLex]
      exact hlt.imp_right fun ⟨hl, hi⟩ => ⟨hl, Or.inl hi⟩

theorem judged_analyze (d : Diagram) (rules : RuleSet) : Judged d rules (d.analyze rules) := by
  unfold analyze
  cases hfew : rules.rules.findSome? (·.shortfall? d) with
  | some v => exact judged_of_findSome?_shortfall? hfew
  | none =>
      have hshort : d.shortfalls rules = ∅ := shortfalls_eq_empty_iff.mpr fun rule hrule =>
        Rule.shortfall?_eq_none_iff.mp (List.findSome?_eq_none_iff.mp hfew rule hrule)
      dsimp only
      split
      · next v hfound => exact judged_of_findSome?_canonical hshort hfound
      · next hnone =>
          refine .wellFormed hshort (failures_eq_empty_iff.mpr fun rule hrule i a ha => ?_)
          have hlink := List.findSome?_eq_none_iff.mp hnone (a, i) (mem_canonical.mpr ha)
          exact (Rule.violationAt?_eq_none_iff ha).mp
            (List.findSome?_eq_none_iff.mp hlink rule hrule)

theorem analyze_eq_wellFormed_iff : d.analyze rules = .wellFormed
    ↔ d.shortfalls rules = ∅ ∧ d.failures rules = ∅ := by
  have hjudged := judged_analyze d rules
  constructor
  · intro hv
    rw [hv] at hjudged
    cases hjudged with
    | wellFormed hshort hfail => exact ⟨hshort, hfail⟩
  · rintro ⟨hshort, hfail⟩
    cases hv : d.analyze rules with
    | wellFormed => rfl
    | violated v =>
        rw [hv] at hjudged
        cases hjudged with
        | tooFew hp => exact absurd hp.1 (hshort ▸ Set.notMem_empty _)
        | blamed _ _ _ hleast => exact absurd hleast.1 (hfail ▸ Set.notMem_empty _)

end Diagram

/-! ## Rules that hold -/

/-- A rule holds if it neither asks for more links nor fails at one. -/
theorem Rule.holds_iff {rule : Rule} {starters : List Starter} {d : Diagram} :
    rule.check.Holds starters d ↔ ¬rule.AsksForMore d ∧
      ∀ i a, d.arcs[i]? = some a → ¬rule.check.FailsAt starters d i := by
  by_cases hmin : ∃ count, rule.check = .minimumLinks count
  · obtain ⟨count, hcount⟩ := hmin
    have hmore : rule.AsksForMore d ↔ d.arcs.length < count := by
      unfold AsksForMore
      rw [hcount]
      simp
    rw [hmore, hcount, Nat.not_lt]
    exact (and_iff_left fun _ _ _ hfails => hfails).symm
  · have hnone : ∀ count, rule.check ≠ .minimumLinks count := fun count h => hmin ⟨count, h⟩
    have hmore : ¬rule.AsksForMore d := fun ⟨count, h, _⟩ => hnone count h
    rw [Check.holds_iff_forall_not_failsAt hnone, and_iff_right hmore]
    constructor
    · intro hall i _ _
      exact hall i
    · intro hall i hfails
      obtain ⟨a, ha⟩ := hfails.getElem?
      exact hall i a ha hfails

/-! ## Two sentences to try -/

namespace Sample

/-- A sentence with the labels of the usual rule. -/
def Sentence.labeled? (s : Sentence) : Option Linkage :=
  s.linkage.toOption.bind fun k => (labeled (.empty 0) k).toOption.map Prod.snd

def nested : Linkage := nestedClauses.labeled?.get (by decide +kernel)

def crossing : Linkage := crossingClauses.labeled?.get (by decide +kernel)

def clausePattern : Pattern := (Pattern.make "C").toOption.get (by decide +kernel)

/-- There is a link, all links are connected, and no clauses cross. -/
def clauseChecks : RuleSet where
  starters := [{ pattern := clausePattern, domain := "clause" }]
  rules := [{ id := ⟨"links", "minimum"⟩, check := .minimumLinks 1 },
    { id := ⟨"graph", "connected"⟩, check := .connected },
    { id := ⟨"clause", "no-crossing"⟩, check := .containment "clause" [] }]

theorem isLabeled_nested : nested.isLabeled = true := by decide +kernel

theorem isLabeled_crossing : crossing.isLabeled = true := by decide +kernel

theorem analyze_nested : nested.analyze clauseChecks = .ok .wellFormed := by decide +kernel

theorem analyze_crossing : crossing.analyze clauseChecks = .ok (.violated
    ⟨⟨"clause", "no-crossing"⟩, some 1,
      "clause domain opened by Cb (1, 5) crosses clause domain opened by Ca (0, 3)"⟩) := by
  decide +kernel

end Sample

/-! ## Linkages -/

namespace Linkage

variable {k : Linkage} {rules : RuleSet}

theorem analyze_of_isLabeled (h : k.isLabeled = true) (rules : RuleSet) :
    k.analyze rules = .ok (k.diagram.analyze rules) := by
  unfold analyze
  rw [diagram?_of_isLabeled h]

theorem domainTable_of_isLabeled (h : k.isLabeled = true) (rules : RuleSet) :
    k.domainTable rules = .ok (DomainTable.ofDiagram rules k.diagram) := by
  unfold domainTable
  rw [diagram?_of_isLabeled h]

/-- What has been computed from the table of a linkage is a value of it. -/
theorem eq_of_map_domainTable {α : Type} {t : DomainTable} {f : DomainTable → α} {x : α}
    (ht : k.domainTable rules = .ok t) (hx : (k.domainTable rules).map f = .ok x) : f t = x := by
  rw [ht] at hx
  exact Except.ok.inj hx

theorem judged_of_analyze (h : k.isLabeled = true) {verdict : Verdict}
    (hv : k.analyze rules = .ok verdict) : Diagram.Judged k.diagram rules verdict := by
  rw [analyze_of_isLabeled h] at hv
  exact Except.ok.inj hv ▸ Diagram.judged_analyze k.diagram rules

/-- A labeled linkage is well formed exactly if every rule holds of it. -/
theorem analyze_wellFormed_iff_holds (h : k.isLabeled = true) (rules : RuleSet) :
    k.analyze rules = .ok .wellFormed
      ↔ ∀ rule ∈ rules.rules, rule.check.Holds rules.starters k.diagram := by
  rw [analyze_of_isLabeled h, Except.ok.injEq, Diagram.analyze_eq_wellFormed_iff,
    Diagram.shortfalls_eq_empty_iff, Diagram.failures_eq_empty_iff]
  simp only [Rule.holds_iff]
  constructor
  · rintro ⟨hshort, hfail⟩ rule hrule
    exact ⟨hshort rule hrule, hfail rule hrule⟩
  · intro hall
    exact ⟨fun rule hrule => (hall rule hrule).1, fun rule hrule => (hall rule hrule).2⟩

theorem holds_nested : Sample.nested.isLabeled = true ∧
    ∀ rule ∈ Sample.clauseChecks.rules,
      rule.check.Holds Sample.clauseChecks.starters Sample.nested.diagram :=
  ⟨Sample.isLabeled_nested,
    (analyze_wellFormed_iff_holds Sample.isLabeled_nested _).mp Sample.analyze_nested⟩

/-- What a violation names. Either a rule asks for more links than there
are, and the first such rule is named without a link; or the link and the
rule are the first that fail, by the link's left word, its index and the
position of the rule. -/
theorem violated_blames_first (h : k.isLabeled = true) {v : Violation}
    (hv : k.analyze rules = .ok (.violated v)) :
    (∃ p rule count, IsLeast (k.diagram.shortfalls rules) p ∧ rules.rules[p]? = some rule ∧
      rule.check = .minimumLinks count ∧ k.size < count ∧ v.rule = rule.id ∧ v.link = none) ∨
    (k.diagram.shortfalls rules = ∅ ∧ ∃ i l p rule, i < k.size ∧ k.links[i]? = some l ∧
      rules.rules[p]? = some rule ∧ rule.check.FailsAt rules.starters k.diagram i ∧
      IsLeast (k.diagram.failures rules) (toLex (l.left, toLex (i, p))) ∧
      v.rule = rule.id ∧ v.link = some i) := by
  have hjudged := judged_of_analyze h hv
  cases hjudged with
  | @tooFew p rule _ hp hrule hv =>
      obtain ⟨hlink, hid⟩ := Rule.shortfall?_eq_some hv
      obtain ⟨other, hother, count, hcount, hlt⟩ := hp.1
      obtain rfl := Option.some.inj (hrule.symm.trans hother)
      rw [length_arcs_diagram] at hlt
      exact Or.inl ⟨p, rule, count, hp, hrule, hcount, hlt, hid, hlink⟩
  | @blamed i p a rule _ hshort ha hrule hleast hv =>
      obtain ⟨hlink, hid⟩ := Rule.violationAt?_eq_some hv
      have hfails : rule.check.FailsAt rules.starters k.diagram i := by
        by_contra hnot
        rw [(Rule.violationAt?_eq_none_iff ha).mpr hnot] at hv
        cases hv
      obtain ⟨l, hl, rfl⟩ := getElem?_arcs_diagram.mp ha
      obtain ⟨hi, -⟩ := List.getElem?_eq_some_iff.mp hl
      exact Or.inr ⟨hshort, i, l, p, rule, hi, hl, hrule, hfails, hleast, hid, hlink⟩

/-- The link that opens the second clause is the first place of a failure,
though the clause that it crosses is opened by the link before. -/
theorem isLeast_failures_crossing : Sample.crossing.isLabeled = true ∧
    ∃ p, IsLeast (Sample.crossing.diagram.failures Sample.clauseChecks)
      (toLex (1, toLex (1, p))) := by
  refine ⟨Sample.isLabeled_crossing, ?_⟩
  rcases violated_blames_first Sample.isLabeled_crossing Sample.analyze_crossing with
    ⟨_, _, _, _, _, _, _, _, hlink⟩ | ⟨_, i, l, p, _, _, hl, _, _, hleast, _, hlink⟩
  · cases hlink
  · obtain rfl := Option.some.inj hlink
    have hleft : Sample.crossing.links[1]?.map Link.left = some 1 := by decide +kernel
    rw [hl] at hleft
    obtain hleft : l.left = 1 := Option.some.inj hleft
    exact ⟨p, hleft ▸ hleast⟩

end Linkage

end LinkParse
