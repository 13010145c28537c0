import LinkParse.Proofs.Renumbering
import Mathlib.Order.Monotone.Basic

/-!
# Links between other words

The analysis goes by the order of words, not by their numbers. A linkage may
be moved by any strictly increasing map of words (`Linkage.move`); in
particular null words may be put in anywhere (`Linkage.spread`). Its failures
move along, and with them what is blamed (`Diagram.analyze_image`), so the
verdict blames the same link and the same rule as before.
-/

namespace LinkParse

/-! ## Verdicts on moved failures -/

namespace Diagram

variable {word link : Nat → Nat} {d e : Diagram} {rules : RuleSet}

/-- The failures of `e` are those of `d` under maps of words and links. -/
def FailuresMoved (word link : Nat → Nat) (d e : Diagram) (rules : RuleSet) : Prop :=
  ∀ {v j p : Nat}, toLex (v, toLex (j, p)) ∈ e.failures rules ↔
    ∃ w i, word w = v ∧ link i = j ∧ toLex (w, toLex (i, p)) ∈ d.failures rules

theorem FailuresMoved.eq_empty_iff (h : FailuresMoved word link d e rules) :
    e.failures rules = ∅ ↔ d.failures rules = ∅ := by
  rw [Set.eq_empty_iff_forall_notMem, Set.eq_empty_iff_forall_notMem]
  constructor
  · intro hnone place hplace
    exact hnone _ (h.mpr ⟨_, _, rfl, rfl, hplace⟩)
  · intro hnone place hplace
    obtain ⟨w, i, -, -, hmem⟩ := h.mp hplace
    exact hnone _ hmem

/-- Maps that keep the order of words and of links keep the first failure. -/
theorem FailuresMoved.isLeast (h : FailuresMoved word link d e rules) (hword : StrictMono word)
    (hlink : StrictMono link) {w i p : Nat}
    (hleast : IsLeast (d.failures rules) (toLex (w, toLex (i, p)))) :
    IsLeast (e.failures rules) (toLex (word w, toLex (link i, p))) := by
  refine ⟨h.mpr ⟨w, i, rfl, rfl, hleast.1⟩, fun place hplace => ?_⟩
  obtain ⟨w', i', hw', hi', hmem⟩ := h.mp hplace
  have hle := hleast.2 hmem
  show toLex (word w, toLex (link i, p)) ≤ toLex (place.1, toLex (place.2.1, place.2.2))
  rw [Prod.Lex.toLex_le_toLex, Prod.Lex.toLex_le_toLex] at hle ⊢
  dsimp only at hle ⊢
  rw [← hw', ← hi', hword.lt_iff_lt, hlink.lt_iff_lt, hword.injective.eq_iff,
    hlink.injective.eq_iff]
  exact hle

/-- What two violations blame, where failures move and shortfalls stay. -/
theorem FailuresMoved.blames (h : FailuresMoved word link d e rules) (hword : StrictMono word)
    (hlink : StrictMono link) (hshort : e.shortfalls rules = d.shortfalls rules) {v w : Violation}
    (hd : Judged d rules (.violated v)) (he : Judged e rules (.violated w)) :
    w.rule = v.rule ∧ w.link = v.link.map link := by
  cases hd with
  | tooFew hp hrule hv =>
      cases he with
      | tooFew hq hother hw =>
          rw [hshort] at hq
          obtain rfl := hp.unique hq
          obtain rfl := Option.some.inj (hrule.symm.trans hother)
          obtain ⟨hvlink, hvrule⟩ := Rule.shortfall?_eq_some hv
          obtain ⟨hwlink, hwrule⟩ := Rule.shortfall?_eq_some hw
          exact ⟨hwrule.trans hvrule.symm, by rw [hwlink, hvlink]; rfl⟩
      | blamed hnone =>
          rw [hshort] at hnone
          exact absurd hp.1 (hnone ▸ Set.notMem_empty _)
  | blamed hnone ha hrule hleast hv =>
      cases he with
      | tooFew hq =>
          rw [hshort] at hq
          exact absurd hq.1 (hnone ▸ Set.notMem_empty _)
      | blamed _ hb hother hleast' hw =>
          obtain ⟨hvlink, hvrule⟩ := Rule.violationAt?_eq_some hv
          obtain ⟨hwlink, hwrule⟩ := Rule.violationAt?_eq_some hw
          have hplace := toLex_inj.mp (hleast'.unique (h.isLeast hword hlink hleast))
          obtain ⟨rfl, rfl⟩ := Prod.mk.inj (toLex_inj.mp (Prod.mk.inj hplace).2)
          obtain rfl := Option.some.inj (hrule.symm.trans hother)
          exact ⟨hwrule.trans hvrule.symm, by rw [hwlink, hvlink]; rfl⟩

/-- Where failures move and shortfalls stay, one verdict moves into the
other. -/
theorem analyze_image (hword : StrictMono word) (hlink : StrictMono link)
    (hshort : e.shortfalls rules = d.shortfalls rules)
    (hfail : FailuresMoved word link d e rules) :
    (d.analyze rules = .wellFormed ∧ e.analyze rules = .wellFormed) ∨
    ∃ v w, d.analyze rules = .violated v ∧ e.analyze rules = .violated w ∧
      w.rule = v.rule ∧ w.link = v.link.map link := by
  have hwell : e.analyze rules = .wellFormed ↔ d.analyze rules = .wellFormed := by
    rw [analyze_eq_wellFormed_iff, analyze_eq_wellFormed_iff, hshort, hfail.eq_empty_iff]
  have hd := judged_analyze d rules
  have he := judged_analyze e rules
  cases hv : d.analyze rules with
  | wellFormed => exact .inl ⟨rfl, hwell.mpr hv⟩
  | violated v =>
      cases hw : e.analyze rules with
      | wellFormed =>
          rw [hwell.mp hw] at hv
          cases hv
      | violated w =>
          exact .inr ⟨v, w, rfl, rfl, hfail.blames hword hlink hshort (hv ▸ hd) (hw ▸ he)⟩

end Diagram

/-! ## Moved linkages -/

/-- The link between the images of its words. -/
def Link.move (l : Link) (word : Nat → Nat) (hword : StrictMono word) : Link :=
  { l with left := word l.left, right := word l.right, left_lt_right := hword l.left_lt_right }

namespace Linkage

/-- The linkage with its links between the images of their words, in a
sentence that has these words. -/
def move (k : Linkage) (word : Nat → Nat) (hword : StrictMono word) (words : Nat)
    (hwords : ∀ w < k.words, word w < words) : Linkage :=
  { k with
    words
    links := k.links.map (·.move word hword)
    right_lt_words := by
      intro l hl
      obtain ⟨m, hm, rfl⟩ := List.mem_map.mp hl
      exact hwords _ (k.right_lt_words m hm)
    connectors_agree := by
      intro l hl l' hl' ends
      obtain ⟨m, hm, rfl⟩ := List.mem_map.mp hl
      obtain ⟨m', hm', rfl⟩ := List.mem_map.mp hl'
      refine k.connectors_agree m hm m' hm' ?_
      simpa [Link.joinsSameWords, Link.move, hword.injective.eq_iff] using ends }

variable {k : Linkage} {word : Nat → Nat} {hword : StrictMono word} {words : Nat}
  {hwords : ∀ w < k.words, word w < words} {rules : RuleSet}

theorem isLabeled_move (h : k.isLabeled = true) :
    (k.move word hword words hwords).isLabeled = true := by
  unfold isLabeled at *
  rw [List.all_eq_true] at *
  intro l hl
  obtain ⟨m, hm, rfl⟩ := List.mem_map.mp hl
  exact h m hm

theorem getElem?_links_move {i : Nat} :
    (k.move word hword words hwords).links[i]? = k.links[i]?.map (·.move word hword) :=
  List.getElem?_map ..

theorem covers_move (k : Linkage) (hword : StrictMono word)
    (hwords : ∀ w < k.words, word w < words) :
    Diagram.Covers id k.diagram (k.move word hword words hwords).diagram := by
  intro j b hb
  obtain ⟨l, hl, rfl⟩ := getElem?_arcs_diagram.mp hb
  rw [getElem?_links_move, Option.map_eq_some_iff] at hl
  obtain ⟨m, hm, rfl⟩ := hl
  exact ⟨j, m.arc, getElem?_arcs_diagram.mpr ⟨m, hm, rfl⟩, rfl⟩

theorem embeds_move (k : Linkage) (hword : StrictMono word)
    (hwords : ∀ w < k.words, word w < words) :
    Diagram.Embeds word id k.diagram (k.move word hword words hwords).diagram where
  word_lt _ _ _ _ hlt := hword hlt
  link_inj _ _ _ _ heq := heq
  exists_image i a ha := by
    obtain ⟨l, hl, rfl⟩ := getElem?_arcs_diagram.mp ha
    refine ⟨(l.move word hword).arc, getElem?_arcs_diagram.mpr ⟨_, ?_, rfl⟩, ⟨rfl, rfl, rfl⟩⟩
    rw [id_eq, getElem?_links_move, hl]
    rfl
  closed j b _ hb _ _ := covers_move k hword hwords j b hb

/-- Moving keeps the verdict, with the link and the rule that it blames. -/
theorem analyze_move (k : Linkage) (hword : StrictMono word)
    (hwords : ∀ w < k.words, word w < words) (h : k.isLabeled = true) (rules : RuleSet) :
    (k.analyze rules = .ok .wellFormed ∧
      (k.move word hword words hwords).analyze rules = .ok .wellFormed) ∨
    ∃ v w, k.analyze rules = .ok (.violated v) ∧
      (k.move word hword words hwords).analyze rules = .ok (.violated w) ∧
      w.link = v.link ∧ w.rule = v.rule := by
  have hembeds := k.embeds_move hword hwords
  have hcovers := k.covers_move hword hwords
  have hshort : (k.move word hword words hwords).diagram.shortfalls rules
      = k.diagram.shortfalls rules := by
    refine Diagram.shortfalls_congr ?_
    rw [length_arcs_diagram, length_arcs_diagram]
    exact List.length_map _
  have hfail : Diagram.FailuresMoved word id k.diagram
      (k.move word hword words hwords).diagram rules := by
    intro v j p
    refine ⟨hembeds.exists_of_mem_failures hcovers, ?_⟩
    rintro ⟨w, i, rfl, rfl, hmem⟩
    exact hembeds.mem_failures_image hcovers hmem
  rw [analyze_of_isLabeled h, analyze_of_isLabeled (isLabeled_move h)]
  rcases Diagram.analyze_image hword strictMono_id hshort hfail with
    ⟨hk, hm⟩ | ⟨v, w, hk, hm, hrule, hlink⟩
  · exact .inl ⟨congrArg _ hk, congrArg _ hm⟩
  · exact .inr ⟨v, w, congrArg _ hk, congrArg _ hm, by simpa using hlink, hrule⟩

/-! ## Null words -/

variable {n : Nat}

/-- A map of the words of a sentence, carried on behind its end. -/
def place (f : Fin k.words → Fin n) (w : Nat) : Nat := if h : w < k.words then f ⟨w, h⟩ else n + w

theorem strictMono_place {f : Fin k.words → Fin n} (hf : StrictMono f) : StrictMono (place f) := by
  intro u v huv
  unfold place
  by_cases hu : u < k.words
  · rw [dif_pos hu]
    by_cases hv : v < k.words
    · rw [dif_pos hv]
      exact hf (show (⟨u, hu⟩ : Fin k.words) < ⟨v, hv⟩ from huv)
    · rw [dif_neg hv]
      exact Nat.lt_add_right v (f ⟨u, hu⟩).isLt
  · rw [dif_neg hu, dif_neg (by omega)]
    omega

theorem place_lt (f : Fin k.words → Fin n) : ∀ w < k.words, place f w < n := by
  intro w hw
  rw [place, dif_pos hw]
  exact (f ⟨w, hw⟩).isLt

/-- The linkage over the words of a longer sentence: each word goes to its
image, and the words between become null words. -/
def spread (k : Linkage) (f : Fin k.words → Fin n) (hf : StrictMono f) : Linkage :=
  k.move (place f) (strictMono_place hf) n (place_lt f)

/-- Null words have no part in the verdict. -/
theorem analyze_spread (k : Linkage) (f : Fin k.words → Fin n) (hf : StrictMono f)
    (h : k.isLabeled = true) (rules : RuleSet) :
    (k.analyze rules = .ok .wellFormed ∧ (k.spread f hf).analyze rules = .ok .wellFormed) ∨
    ∃ v w, k.analyze rules = .ok (.violated v) ∧ (k.spread f hf).analyze rules = .ok (.violated w) ∧
      w.link = v.link ∧ w.rule = v.rule :=
  analyze_move k (strictMono_place hf) (place_lt f) h rules

end Linkage

namespace Sample

/-- Every word of the sentence with a new word before it, and one behind the
last. -/
def interleave (i : Fin crossing.words) : Fin (2 * crossing.words + 1) := ⟨2 * i + 1, by omega⟩

theorem strictMono_interleave : StrictMono interleave := by
  intro i j hij
  show 2 * (i : Nat) + 1 < 2 * (j : Nat) + 1
  have hlt : (i : Nat) < j := hij
  omega

end Sample

/-- Between new words the clauses cross at the same link. -/
theorem Linkage.analyze_spread_crossing : StrictMono Sample.interleave ∧
    Sample.crossing.isLabeled = true ∧
    ∃ w, (Sample.crossing.spread Sample.interleave Sample.strictMono_interleave).analyze
        Sample.clauseChecks = .ok (.violated w) ∧
      w.link = some 1 ∧ w.rule = ⟨"clause", "no-crossing"⟩ := by
  refine ⟨Sample.strictMono_interleave, Sample.isLabeled_crossing, ?_⟩
  rcases Linkage.analyze_spread Sample.crossing Sample.interleave Sample.strictMono_interleave
      Sample.isLabeled_crossing Sample.clauseChecks with ⟨hv, -⟩ | ⟨v, w, hv, hw, hlink, hrule⟩
  · rw [Sample.analyze_crossing] at hv
    cases hv
  · rw [Sample.analyze_crossing] at hv
    cases hv
    exact ⟨w, hw, hlink, hrule⟩

end LinkParse
