import LinkParse.Proofs.Derivation
import Mathlib.Order.Bounds.Basic

/-!
# Runs that stop

Where the connectors of some link do not agree, a run of `deriveLabels` stops
at the first such link with its work half done. `Labeling.IsStoppedAt` says
what it leaves: the links before have their labels and the table has the texts
of these, while the link itself and those behind it are as they were
(`Linkage.deriveLabels_isStoppedAt`).

A run over links that agree goes on behind them with the table that it has
then (`labelLinks_append`). So what it does before it stops is what a run over
the links before does as a whole (`labelLinks_append_cons`).
-/

namespace LinkParse

namespace Labeling

variable {rule : LabelRule} {l : Link} {behind : List Link}

/-- Links that agree are labeled, and the run goes on behind them. -/
theorem labelLinks_append : ∀ {t : LabelTable} {before : List Link},
    (∀ m ∈ before, rule.AgreesOn m) → labelLinks rule t (before ++ behind) =
      let u := (labelLinks rule t before).1
      ((labelLinks rule u behind).1,
        (labelLinks rule t before).2.1 ++ (labelLinks rule u behind).2.1,
        (labelLinks rule u behind).2.2)
  | _, [], _ => rfl
  | t, m :: before, h => by
      rw [List.forall_mem_cons] at h
      simp only [List.cons_append, labelLinks_cons h.1, labelLinks_append h.2]

theorem labelLinks_cons_of_not_agreesOn {t : LabelTable} (h : ¬rule.AgreesOn l) :
    labelLinks rule t (l :: behind) = (t, l :: behind, some ⟨l⟩) :=
  if_neg h

/-- The run stops at the first link that does not agree. -/
theorem labelLinks_append_cons {t : LabelTable} {before : List Link}
    (hbefore : ∀ m ∈ before, rule.AgreesOn m) (hl : ¬rule.AgreesOn l) :
    labelLinks rule t (before ++ l :: behind) =
      ((labelLinks rule t before).1, (labelLinks rule t before).2.1 ++ l :: behind, some ⟨l⟩) := by
  rw [labelLinks_append hbefore]
  simp only [labelLinks_cons_of_not_agreesOn hl]

theorem length_labelLinks {t : LabelTable} {links : List Link} :
    (labelLinks rule t links).2.1.length = links.length := by
  have hlength := congrArg List.length (bare_labelLinks rule t links)
  rwa [List.length_map, List.length_map] at hlength

/-- The run has labeled the links before the one with an index, and nothing
else, and their texts have been added to the table. -/
structure IsStoppedAt (n : Nat) (rule : LabelRule) (t : LabelTable) (k : Linkage) (run : Labeling) :
    Prop where
  mismatch?_eq : ∃ l, k.links[n]? = some l ∧ run.mismatch? = some ⟨l⟩
  words_eq : run.linkage.words = k.words
  cost_eq : run.linkage.cost = k.cost
  size_eq : run.linkage.size = k.size
  getElem?_before : ∀ i < n, ∀ l, k.links[i]? = some l →
    ∃ a, run.linkage.links[i]? = some (l.withLabel a) ∧
      a.text = rule.label l.leftConnector l.rightConnector ∧ a.StandsIn run.table
  /-- The link at which the run stops and those behind it keep their labels,
  if they have any. -/
  getElem?_behind : ∀ i, n ≤ i → run.linkage.links[i]? = k.links[i]?
  /-- Every entry is where it was. -/
  id_eq : run.table.id = t.id
  kept : t.texts <+: run.table.texts
  mem_texts_iff : ∀ s, s ∈ run.table.texts ↔ s ∈ t.texts ∨
    ∃ l ∈ k.links.take n, rule.label l.leftConnector l.rightConnector = s
  size_table : run.table.size =
    t.size + (((k.links.take n).map rule.textOf).dedup.filter (· ∉ t.texts)).length

end Labeling

namespace Linkage

variable {rule : LabelRule} {k : Linkage} {t : LabelTable} {before behind : List Link} {l : Link}

/-- The links up to the first that does not agree. -/
theorem exists_links_eq_append (h : ∃ l ∈ k.links, ¬rule.AgreesOn l) :
    ∃ before l behind, k.links = before ++ l :: behind ∧ (∀ m ∈ before, rule.AgreesOn m) ∧
      ¬rule.AgreesOn l := by
  obtain ⟨m, hm, hnot⟩ := h
  obtain ⟨l, hl⟩ : ∃ l, (k.links.find? fun l => ¬rule.AgreesOn l) = some l := by
    rw [← Option.isSome_iff_exists, List.find?_isSome]
    exact ⟨m, hm, decide_eq_true hnot⟩
  obtain ⟨hnot, before, behind, hsplit, hbefore⟩ := List.find?_eq_some_iff_append.mp hl
  refine ⟨before, l, behind, hsplit, fun m hm => ?_, of_decide_eq_true hnot⟩
  simpa using hbefore m hm

theorem deriveLabels_of_append (hsplit : k.links = before ++ l :: behind)
    (hbefore : ∀ m ∈ before, rule.AgreesOn m) (hl : ¬rule.AgreesOn l) :
    (k.deriveLabels rule t).table = (Labeling.labelLinks rule t before).1 ∧
      (k.deriveLabels rule t).linkage.links
        = (Labeling.labelLinks rule t before).2.1 ++ l :: behind ∧
      (k.deriveLabels rule t).mismatch? = some ⟨l⟩ := by
  have hrun : Labeling.labelLinks rule t k.links = _ :=
    hsplit ▸ Labeling.labelLinks_append_cons hbefore hl
  refine ⟨?_, ?_, ?_⟩
  · show (Labeling.labelLinks rule t k.links).1 = _
    rw [hrun]
  · show (Labeling.labelLinks rule t k.links).2.1 = _
    rw [hrun]
  · show (Labeling.labelLinks rule t k.links).2.2 = _
    rw [hrun]

theorem isStoppedAt_of_append (hsplit : k.links = before ++ l :: behind)
    (hbefore : ∀ m ∈ before, rule.AgreesOn m) (hl : ¬rule.AgreesOn l) :
    (k.deriveLabels rule t).IsStoppedAt before.length rule t k := by
  obtain ⟨htable, hlinks, hmismatch⟩ := deriveLabels_of_append (t := t) hsplit hbefore hl
  have hgrows := Labeling.growsBy_labelLinks (t := t) hbefore
  rw [← htable] at hgrows
  have hlength : (Labeling.labelLinks rule t before).2.1.length = before.length :=
    Labeling.length_labelLinks
  have hstop : k.links[before.length]? = some l := by
    rw [hsplit, List.getElem?_append_right (Nat.le_refl _), Nat.sub_self]
    rfl
  have htake : k.links.take before.length = before := by
    rw [hsplit, List.take_left]
  refine ⟨⟨l, hstop, hmismatch⟩, rfl, rfl, ?size, ?before, ?behind, hgrows.id_eq, hgrows.kept,
    ?texts, by rw [hgrows.size_eq, htake]⟩
  case size =>
    unfold size
    rw [hlinks, hsplit, List.length_append, List.length_append, hlength]
  case before =>
    intro i hi m hm
    rw [hsplit, List.getElem?_append_left hi] at hm
    obtain ⟨a, ha, htext, hstands⟩ := Labeling.getElem?_labelLinks (t := t) hbefore hm
    rw [hlinks, htable, List.getElem?_append_left (hlength.symm ▸ hi)]
    exact ⟨a, ha, htext, hstands⟩
  case behind =>
    intro i hi
    rw [hlinks, hsplit, List.getElem?_append_right hi,
      List.getElem?_append_right (hlength.symm ▸ hi), hlength]
  case texts =>
    intro s
    rw [hgrows.mem_iff, htake, List.mem_map]
    rfl

/-- A run over a linkage of which some link does not agree stops at the first
such link. The links before it are labeled, whatever labels they had and
whatever the table held, and all else is as it was. -/
theorem deriveLabels_isStoppedAt (h : ∃ l ∈ k.links, ¬rule.AgreesOn l) (t : LabelTable) :
    ∃ n, IsLeast {i | ∃ l, k.links[i]? = some l ∧ ¬rule.AgreesOn l} n ∧
      (k.deriveLabels rule t).IsStoppedAt n rule t k := by
  obtain ⟨before, l, behind, hsplit, hbefore, hl⟩ := exists_links_eq_append h
  have hstopped := isStoppedAt_of_append (t := t) hsplit hbefore hl
  refine ⟨before.length, ⟨⟨l, by simp [hsplit], hl⟩, ?_⟩, hstopped⟩
  rintro i ⟨m, hm, hnot⟩
  by_contra hlt
  rw [hsplit, List.getElem?_append_left (Nat.not_le.mp hlt)] at hm
  exact hnot (hbefore m (List.mem_of_getElem? hm))

end Linkage

namespace Sample

/-- The second link has connectors that do not agree. All links have a label
of another rule. -/
def clashing : Linkage :=
  let k := (linkage 4 [(0, 1, .connectors "Ss+" "S*-"), (1, 2, .connectors "Op+" "Os-"),
    (2, 3, .connectors "Ds+" "Ds-")] .zero).toOption.get (by decide +kernel)
  (k.deriveLabels (.constant "X") (.empty 0)).linkage

end Sample

/-- The first link has a new label, which the table did not have, and the
others keep the old one. -/
theorem Linkage.deriveLabels_isStoppedAt_clashing :
    (∃ l ∈ Sample.clashing.links, ¬LabelRule.subscriptIntersection.AgreesOn l) ∧
    ∃ (t : LabelTable) (run : Labeling),
      run = Sample.clashing.deriveLabels .subscriptIntersection t ∧
      run.IsStoppedAt 1 .subscriptIntersection t Sample.clashing ∧ t.texts = ["Ds"] ∧
      run.table.texts = ["Ds", "Ss"] ∧
      run.linkage.links.map (fun l => l.label.map Label.text) =
        [some "Ss", some "X", some "X"] := by
  have hclash : ∃ l ∈ Sample.clashing.links, ¬LabelRule.subscriptIntersection.AgreesOn l := by
    decide +kernel
  let t : LabelTable := ⟨1, ["Ds"], by decide⟩
  obtain ⟨n, hleast, hstopped⟩ := Linkage.deriveLabels_isStoppedAt hclash t
  have hone : n = 1 := by
    have hle : n ≤ 1 := hleast.2 ⟨_, rfl, by decide +kernel⟩
    have hfirst : ∀ l ∈ Sample.clashing.links[0]?, LabelRule.subscriptIntersection.AgreesOn l := by
      decide +kernel
    obtain ⟨l, hl, hnot⟩ := hleast.1
    rcases Nat.eq_zero_or_pos n with rfl | hpos
    · exact absurd (hfirst l hl) hnot
    · exact hle.antisymm hpos
  subst hone
  exact ⟨hclash, t, _, rfl, hstopped, rfl, by decide +kernel, by decide +kernel⟩

end LinkParse
