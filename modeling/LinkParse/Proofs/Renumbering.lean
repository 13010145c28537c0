import LinkParse.Proofs.Embedding
import LinkParse.Proofs.Verdict
import Mathlib.Data.List.OfFn
import Mathlib.Logic.Equiv.Basic

/-!
# Links under other numbers

The numbers of links decide the canonical order, the numbers of domains and
which of two domains is looked at first. They do not decide the verdict:
`analyze_permute` compares a linkage with one that has the same links in any
other order. The only thing that may differ is which of the links with one
left word is blamed.

The permuted diagram covers the given one, so the same checks fail at the
same links (`Diagram.Embeds.failsAt_iff`), and the failures of the one are
the renumbered failures of the other (`mem_failures_iff`).
-/

namespace LinkParse

/-! ## Failures of a covered diagram -/

namespace Diagram

variable {word link : Nat → Nat} {d e : Diagram} {rules : RuleSet}

theorem shortfalls_congr (h : e.arcs.length = d.arcs.length) :
    e.shortfalls rules = d.shortfalls rules := by
  unfold shortfalls Rule.AsksForMore
  rw [h]

namespace Embeds

theorem mem_failures_image (h : Embeds word link d e) (hcovers : Covers link d e) {w i p : Nat}
    (hmem : toLex (w, toLex (i, p)) ∈ d.failures rules) :
    toLex (word w, toLex (link i, p)) ∈ e.failures rules := by
  obtain ⟨a, rule, ha, hrule, hfails, rfl⟩ := mem_failures_iff.mp hmem
  obtain ⟨b, hb, hab⟩ := h.exists_image i a ha
  exact mem_failures_iff.mpr
    ⟨b, rule, hb, hrule, (h.failsAt_iff hcovers ha).mpr hfails, hab.left_eq.symm⟩

theorem exists_of_mem_failures (h : Embeds word link d e) (hcovers : Covers link d e) {v j p : Nat}
    (hmem : toLex (v, toLex (j, p)) ∈ e.failures rules) :
    ∃ w i, word w = v ∧ link i = j ∧ toLex (w, toLex (i, p)) ∈ d.failures rules := by
  obtain ⟨b, rule, hb, hrule, hfails, rfl⟩ := mem_failures_iff.mp hmem
  obtain ⟨i, a, ha, rfl⟩ := hcovers j b hb
  exact ⟨a.left, i, (h.isImage ha hb).left_eq.symm, rfl,
    mem_failures_iff.mpr ⟨a, rule, ha, hrule, (h.failsAt_iff hcovers ha).mp hfails, rfl⟩⟩

theorem failures_eq_empty_iff (h : Embeds word link d e) (hcovers : Covers link d e) :
    e.failures rules = ∅ ↔ d.failures rules = ∅ := by
  rw [Set.eq_empty_iff_forall_notMem, Set.eq_empty_iff_forall_notMem]
  constructor
  · intro hnone place hplace
    exact hnone _ (h.mem_failures_image hcovers hplace)
  · intro hnone place hplace
    obtain ⟨w, i, -, -, hmem⟩ := h.exists_of_mem_failures hcovers hplace
    exact hnone _ hmem

end Embeds

end Diagram

/-! ## Permuted linkages -/

namespace Linkage

/-- The linkage that has each link `i` under the number `σ i`. -/
def permute (k : Linkage) (σ : Equiv.Perm (Fin k.size)) : Linkage :=
  have old : ∀ l ∈ List.ofFn fun j => k.links.get (σ.symm j), l ∈ k.links := by
    intro l hl
    obtain ⟨j, rfl⟩ := (List.mem_ofFn ..).mp hl
    exact List.get_mem ..
  { k with
    links := List.ofFn fun j => k.links.get (σ.symm j)
    right_lt_words := fun l hl => k.right_lt_words l (old l hl)
    connectors_agree := fun l hl m hm => k.connectors_agree l (old l hl) m (old m hm) }

variable {k : Linkage} {rules : RuleSet}

@[simp] theorem size_permute (k : Linkage) (σ : Equiv.Perm (Fin k.size)) :
    (k.permute σ).size = k.size := List.length_ofFn

/-- Link `i` of the given linkage is link `σ i` of the permuted one. -/
theorem getElem?_permute (σ : Equiv.Perm (Fin k.size)) (i : Fin k.size) :
    (k.permute σ).links[(σ i : Nat)]? = some (k.links.get i) := by
  show (List.ofFn fun j => k.links.get (σ.symm j))[(σ i : Nat)]? = _
  rw [List.getElem?_ofFn, dif_pos (σ i).isLt, Fin.eta, Equiv.symm_apply_apply]

theorem exists_get_eq {i : Nat} {l : Link} (h : k.links[i]? = some l) :
    ∃ j : Fin k.size, (j : Nat) = i ∧ k.links.get j = l := by
  obtain ⟨hi, rfl⟩ := List.getElem?_eq_some_iff.mp h
  exact ⟨⟨i, hi⟩, rfl, rfl⟩

theorem exists_get_permute_eq {σ : Equiv.Perm (Fin k.size)} {i : Nat} {l : Link}
    (h : (k.permute σ).links[i]? = some l) :
    ∃ j : Fin k.size, (σ j : Nat) = i ∧ k.links.get j = l := by
  obtain ⟨hi, -⟩ := List.getElem?_eq_some_iff.mp h
  obtain ⟨j, hj⟩ := σ.surjective ⟨i, (size_permute k σ) ▸ hi⟩
  obtain rfl : (σ j : Nat) = i := congrArg Fin.val hj
  rw [getElem?_permute] at h
  exact ⟨j, rfl, Option.some.inj h⟩

theorem eq_of_left_eq (hnodup : (k.links.map Link.left).Nodup) {i j : Fin k.size}
    (h : (k.links.get i).left = (k.links.get j).left) : i = j := by
  have hi : (i : Nat) < (k.links.map Link.left).length := by
    rw [List.length_map]
    exact i.isLt
  have hj : (j : Nat) < (k.links.map Link.left).length := by
    rw [List.length_map]
    exact j.isLt
  have heq : (k.links.map Link.left)[(i : Nat)] = (k.links.map Link.left)[(j : Nat)] := by
    rw [List.getElem_map, List.getElem_map]
    exact h
  exact Fin.ext (hnodup.getElem_inj_iff.mp heq)

theorem isLabeled_permute (h : k.isLabeled = true) (σ : Equiv.Perm (Fin k.size)) :
    (k.permute σ).isLabeled = true := by
  unfold isLabeled at *
  rw [List.all_eq_true] at *
  intro l hl
  obtain ⟨j, rfl⟩ := (List.mem_ofFn ..).mp hl
  exact h _ (List.get_mem ..)

/-- The new number of a link. -/
def renumber (k : Linkage) (σ : Equiv.Perm (Fin k.size)) (i : Nat) : Nat :=
  if h : i < k.size then σ ⟨i, h⟩ else i

theorem renumber_val (σ : Equiv.Perm (Fin k.size)) (i : Fin k.size) :
    k.renumber σ i = σ i := dif_pos i.isLt

theorem covers_permute (k : Linkage) (σ : Equiv.Perm (Fin k.size)) :
    Diagram.Covers (k.renumber σ) k.diagram (k.permute σ).diagram := by
  intro j b hb
  obtain ⟨hj, -⟩ := List.getElem?_eq_some_iff.mp hb
  rw [length_arcs_diagram, size_permute] at hj
  obtain ⟨i, hi⟩ := σ.surjective ⟨j, hj⟩
  refine ⟨i, (k.links.get i).arc, ?_, ?_⟩
  · exact getElem?_arcs_diagram.mpr ⟨_, List.getElem?_eq_getElem i.isLt, rfl⟩
  · rw [renumber_val, hi]

theorem embeds_permute (k : Linkage) (σ : Equiv.Perm (Fin k.size)) :
    Diagram.Embeds id (k.renumber σ) k.diagram (k.permute σ).diagram where
  word_lt _ _ _ _ hlt := hlt
  link_inj i j hi hj heq := by
    rw [length_arcs_diagram] at hi hj
    rw [renumber_val σ ⟨i, hi⟩, renumber_val σ ⟨j, hj⟩] at heq
    exact congrArg Fin.val (σ.injective (Fin.ext heq))
  exists_image i a ha := by
    obtain ⟨l, hl, rfl⟩ := getElem?_arcs_diagram.mp ha
    obtain ⟨hi, rfl⟩ := List.getElem?_eq_some_iff.mp hl
    refine ⟨_, getElem?_arcs_diagram.mpr ⟨_, ?_, rfl⟩, ⟨rfl, rfl, rfl⟩⟩
    rw [renumber_val σ ⟨i, hi⟩]
    exact getElem?_permute σ ⟨i, hi⟩
  closed j b _ hb _ _ := covers_permute k σ j b hb

/-! ## Their verdicts -/

theorem mem_failures_permute (σ : Equiv.Perm (Fin k.size)) {w p : Nat} {i : Fin k.size} :
    toLex (w, toLex ((σ i : Nat), p)) ∈ (k.permute σ).diagram.failures rules
      ↔ toLex (w, toLex ((i : Nat), p)) ∈ k.diagram.failures rules := by
  have h := k.embeds_permute σ
  have hcovers := k.covers_permute σ
  constructor
  · intro hmem
    obtain ⟨v, j, rfl, hj, hplace⟩ := h.exists_of_mem_failures hcovers hmem
    obtain ⟨a, -, ha, -⟩ := Diagram.mem_failures_iff.mp hplace
    obtain ⟨hlt, -⟩ := List.getElem?_eq_some_iff.mp ha
    rw [length_arcs_diagram] at hlt
    rw [renumber_val σ ⟨j, hlt⟩] at hj
    rwa [← σ.injective (Fin.ext hj)]
  · intro hmem
    have hplace := h.mem_failures_image hcovers hmem
    rwa [renumber_val] at hplace

/-- The first failures of a linkage and of a permuted one are at links with
one left word. Where these are the same link, the failing rules are the same
too. -/
theorem left_eq_of_isLeast_permute {σ : Equiv.Perm (Fin k.size)} {i j : Fin k.size} {u v p q : Nat}
    (hi : IsLeast (k.diagram.failures rules) (toLex (u, toLex ((i : Nat), p))))
    (hj : IsLeast ((k.permute σ).diagram.failures rules) (toLex (v, toLex ((σ j : Nat), q)))) :
    u = v ∧ (i = j → p = q) := by
  have hij := hi.2 ((mem_failures_permute σ).mp hj.1)
  have hji := hj.2 ((mem_failures_permute σ).mpr hi.1)
  rw [Prod.Lex.toLex_le_toLex, Prod.Lex.toLex_le_toLex] at hij hji
  dsimp only at hij hji
  constructor
  · omega
  · rintro rfl
    omega

/-- What two judgements blame, of a linkage and of a permuted one. -/
theorem blames_permute {σ : Equiv.Perm (Fin k.size)} {v w : Violation}
    (hshort : (k.permute σ).diagram.shortfalls rules = k.diagram.shortfalls rules)
    (hk : Diagram.Judged k.diagram rules (.violated v))
    (hm : Diagram.Judged (k.permute σ).diagram rules (.violated w)) :
    (v.link = none ∧ w.link = none ∧ w.rule = v.rule) ∨
      ∃ i j : Fin k.size, v.link = some ↑i ∧ w.link = some ↑(σ j) ∧
        (k.links.get j).left = (k.links.get i).left ∧
        ((k.links.map Link.left).Nodup → j = i ∧ w.rule = v.rule) := by
  cases hk with
  | tooFew hp hrule hv =>
      cases hm with
      | tooFew hq hother hw =>
          rw [hshort] at hq
          obtain rfl := hp.unique hq
          obtain rfl := Option.some.inj (hrule.symm.trans hother)
          obtain ⟨hvlink, hvrule⟩ := Rule.shortfall?_eq_some hv
          obtain ⟨hwlink, hwrule⟩ := Rule.shortfall?_eq_some hw
          exact Or.inl ⟨hvlink, hwlink, hwrule.trans hvrule.symm⟩
      | blamed hnone =>
          rw [hshort] at hnone
          exact absurd hp.1 (hnone ▸ Set.notMem_empty _)
  | blamed hnone ha hrule hleast hv =>
      cases hm with
      | tooFew hq =>
          rw [hshort] at hq
          exact absurd hq.1 (hnone ▸ Set.notMem_empty _)
      | blamed _ hb hother hleast' hw =>
          obtain ⟨hvlink, hvrule⟩ := Rule.violationAt?_eq_some hv
          obtain ⟨hwlink, hwrule⟩ := Rule.violationAt?_eq_some hw
          obtain ⟨l, hl, rfl⟩ := getElem?_arcs_diagram.mp ha
          obtain ⟨m, hm, rfl⟩ := getElem?_arcs_diagram.mp hb
          obtain ⟨i, rfl, rfl⟩ := exists_get_eq hl
          obtain ⟨j, rfl, rfl⟩ := exists_get_permute_eq hm
          obtain ⟨hleft, hpq⟩ := left_eq_of_isLeast_permute hleast hleast'
          refine Or.inr ⟨i, j, hvlink, hwlink, hleft.symm, fun hnodup => ?_⟩
          obtain rfl : i = j := eq_of_left_eq hnodup hleft
          obtain rfl := hpq rfl
          obtain rfl := Option.some.inj (hrule.symm.trans hother)
          exact ⟨rfl, hwrule.trans hvrule.symm⟩

/-- A labeled linkage and the same links in another order have one verdict.
Where both are violated, they blame no link and the same rule, or links with
one left word; and if no two links have one left word, the same link and the
same rule. -/
theorem analyze_permute (h : k.isLabeled = true) (rules : RuleSet) (σ : Equiv.Perm (Fin k.size)) :
    (k.analyze rules = .ok .wellFormed ∧ (k.permute σ).analyze rules = .ok .wellFormed) ∨
    ∃ v w, k.analyze rules = .ok (.violated v) ∧
      (k.permute σ).analyze rules = .ok (.violated w) ∧
      ((v.link = none ∧ w.link = none ∧ w.rule = v.rule) ∨
        ∃ i j : Fin k.size, v.link = some ↑i ∧ w.link = some ↑(σ j) ∧
          (k.links.get j).left = (k.links.get i).left ∧
          ((k.links.map Link.left).Nodup → j = i ∧ w.rule = v.rule)) := by
  have hembeds := k.embeds_permute σ
  have hcovers := k.covers_permute σ
  have hshort : (k.permute σ).diagram.shortfalls rules = k.diagram.shortfalls rules :=
    Diagram.shortfalls_congr (by rw [length_arcs_diagram, length_arcs_diagram, size_permute])
  have hwell : (k.permute σ).diagram.analyze rules = .wellFormed
      ↔ k.diagram.analyze rules = .wellFormed := by
    rw [Diagram.analyze_eq_wellFormed_iff, Diagram.analyze_eq_wellFormed_iff, hshort,
      hembeds.failures_eq_empty_iff hcovers]
  rw [analyze_of_isLabeled h, analyze_of_isLabeled (isLabeled_permute h σ)]
  have hk := Diagram.judged_analyze k.diagram rules
  have hm := Diagram.judged_analyze (k.permute σ).diagram rules
  cases hv : k.diagram.analyze rules with
  | wellFormed => exact Or.inl ⟨rfl, congrArg Except.ok (hwell.mpr hv)⟩
  | violated v =>
      cases hw : (k.permute σ).diagram.analyze rules with
      | wellFormed =>
          rw [hwell.mp hw] at hv
          cases hv
      | violated w =>
          refine Or.inr ⟨v, w, rfl, rfl, ?_⟩
          rw [hv] at hk
          rw [hw] at hm
          exact blames_permute hshort hk hm

end Linkage

/-! ## A sentence in two parts -/

namespace Sample

def apart : Linkage := disconnected.labeled?.get (by decide +kernel)

theorem isLabeled_apart : apart.isLabeled = true := by decide +kernel

theorem analyze_apart : apart.analyze clauseChecks = .ok (.violated
    ⟨⟨"graph", "connected"⟩, some 1, "Os (2, 3) is disconnected from the first link"⟩) := by
  decide +kernel

end Sample

/-- With its links exchanged the sentence is violated by the same rule at the
same link, which has the number 0 now. -/
theorem Linkage.analyze_permute_apart : Sample.apart.isLabeled = true ∧
    (Sample.apart.links.map Link.left).Nodup ∧
    ∃ w, (Sample.apart.permute Fin.revPerm).analyze Sample.clauseChecks = .ok (.violated w) ∧
      w.link = some 0 ∧ w.rule = ⟨"graph", "connected"⟩ := by
  have hnodup : (Sample.apart.links.map Link.left).Nodup := by decide +kernel
  refine ⟨Sample.isLabeled_apart, hnodup, ?_⟩
  have hreversed : ∀ i : Fin Sample.apart.size, some 1 = some (i : Nat) →
      some (Fin.revPerm i : Nat) = some 0 := by decide +kernel
  rcases Linkage.analyze_permute Sample.isLabeled_apart Sample.clauseChecks Fin.revPerm with
    ⟨hv, -⟩ | ⟨v, w, hv, hw, hlinks⟩
  · rw [Sample.analyze_apart] at hv
    cases hv
  · rw [Sample.analyze_apart] at hv
    cases hv
    rcases hlinks with ⟨hnone, -⟩ | ⟨i, j, hi, hj, -, hsame⟩
    · cases hnone
    · obtain ⟨rfl, hrule⟩ := hsame hnodup
      exact ⟨w, hw, hj.trans (hreversed j hi), hrule⟩

end LinkParse
