import LinkParse.Proofs.Labeling
import LinkParse.Proofs.Verdict
import Mathlib.Data.List.Dedup

/-!
# Runs that label every link

Where the connectors of every link agree, a run of `deriveLabels` does not
stop. It replaces each link's label, and nothing else, by the entry for the
text that the rule spells; the table keeps its entries and gets the new ones
among these texts, each once (`Linkage.deriveLabels_isComplete`).

A second run finds every label where the first one put it: a text that a
table has stands for one entry (`Label.StandsIn.eq_of_text_eq`), which
interning returns (`intern_of_standsIn`). By induction over the links the
run leaves both them and the table as they are (`labelLinks_of_standsIn`).
-/

namespace LinkParse

/-! ## Entries of one table -/

/-- Labels of one table with one text are one entry. -/
theorem Label.StandsIn.eq_of_text_eq {t : LabelTable} {a b : Label} (ha : a.StandsIn t)
    (hb : b.StandsIn t) (h : a.text = b.text) : a = b := by
  have hlt := (List.getElem?_eq_some_iff.mp ha.2).1
  have hentry : a.entry = b.entry :=
    (List.getElem?_inj hlt t.distinct).mp (by rw [ha.2, hb.2, h])
  obtain ⟨table, entry, text⟩ := a
  obtain ⟨table', entry', text'⟩ := b
  obtain rfl : table = table' := ha.1.trans hb.1.symm
  obtain rfl : entry = entry' := hentry
  obtain rfl : text = text' := h
  rfl

theorem Label.StandsIn.sameEntry_iff {t : LabelTable} {a b : Label} (ha : a.StandsIn t)
    (hb : b.StandsIn t) : a.sameEntry b = true ↔ a.text = b.text := by
  unfold sameEntry
  rw [Bool.and_eq_true, beq_iff_eq, beq_iff_eq]
  constructor
  · rintro ⟨-, hentry⟩
    exact Option.some.inj (ha.2.symm.trans (hentry ▸ hb.2))
  · intro htext
    obtain rfl := ha.eq_of_text_eq hb htext
    exact ⟨rfl, rfl⟩

namespace LabelTable

variable {t u : LabelTable} {a : Label} {texts : List String}

/-- Interning the text of an entry gives this entry and adds none. -/
theorem intern_of_standsIn (ha : a.StandsIn t) : t.intern a.text = (t, a) := by
  have hold : (t.intern a.text).1 = t := dif_pos (List.mem_of_getElem? ha.2)
  have hstands := t.standsIn_intern a.text
  rw [hold] at hstands
  exact Prod.ext hold (hstands.eq_of_text_eq ha rfl)

/-- A table grows by one entry for each of the texts that it did not have. -/
theorem GrowsBy.size_eq (h : t.GrowsBy texts u) :
    u.size = t.size + (texts.dedup.filter (· ∉ t.texts)).length := by
  obtain ⟨new, hnew⟩ := h.kept
  have hnodup := u.distinct
  rw [← hnew, List.nodup_append] at hnodup
  obtain ⟨-, hnodup, hdisjoint⟩ := hnodup
  have hperm : new.Perm (texts.dedup.filter (· ∉ t.texts)) := by
    rw [List.perm_ext_iff_of_nodup hnodup (texts.nodup_dedup.filter _)]
    intro s
    have hs := h.mem_iff s
    rw [← hnew, List.mem_append] at hs
    rw [List.mem_filter, List.mem_dedup, decide_eq_true_eq]
    constructor
    · intro hmem
      have hfresh : s ∉ t.texts := fun hold => hdisjoint s hold s hmem rfl
      exact ⟨(hs.mp (.inr hmem)).resolve_left hfresh, hfresh⟩
    · rintro ⟨hmem, hfresh⟩
      exact (hs.mpr (.inr hmem)).resolve_left hfresh
  unfold size
  rw [← hnew, List.length_append, hperm.length_eq]

end LabelTable

/-! ## A run over labeled links -/

/-- A link with a given spelling is the bare one with a label. -/
theorem Link.exists_eq_withLabel {l m : Link} {text : String}
    (h : m.spelling = (l.bare, some text)) : ∃ a, m = l.withLabel a ∧ a.text = text := by
  obtain ⟨hbare, hlabel⟩ := Prod.mk.injEq .. ▸ h
  obtain ⟨a, ha, htext⟩ := Option.map_eq_some_iff.mp hlabel
  refine ⟨a, ?_, htext⟩
  calc m = m.bare.withLabel a := by unfold bare withLabel; rw [← ha]
    _ = l.bare.withLabel a := by rw [hbare]
    _ = l.withLabel a := rfl

theorem Labeling.getElem?_labelLinks {rule : LabelRule} {t : LabelTable} {links : List Link}
    (h : ∀ l ∈ links, rule.AgreesOn l) {i : Nat} {l : Link} (hl : links[i]? = some l) :
    ∃ a, (labelLinks rule t links).2.1[i]? = some (l.withLabel a) ∧ a.text = rule.textOf l ∧
      a.StandsIn (labelLinks rule t links).1 := by
  have hspelling := congrArg (·[i]?) (spelling_labelLinks (t := t) h)
  simp only [List.getElem?_map, hl, Option.map_some] at hspelling
  obtain ⟨m, hm, hspelled⟩ := Option.map_eq_some_iff.mp hspelling
  obtain ⟨a, rfl, htext⟩ := Link.exists_eq_withLabel hspelled
  exact ⟨a, hm, htext, standsIn_labelLinks h _ (List.mem_of_getElem? hm) a rfl⟩

/-- Links that have the labels of the rule, and the table that these stand in,
are left as they are. -/
theorem Labeling.labelLinks_of_standsIn {rule : LabelRule} {t : LabelTable} :
    ∀ {links : List Link}, (∀ l ∈ links, rule.AgreesOn l ∧
      ∃ a, l.label = some a ∧ a.text = rule.textOf l ∧ a.StandsIn t) →
      labelLinks rule t links = (t, links, none)
  | [], _ => rfl
  | l :: links, h => by
      rw [List.forall_mem_cons] at h
      obtain ⟨⟨hagrees, a, ha, htext, hstands⟩, hrest⟩ := h
      have hintern := LabelTable.intern_of_standsIn hstands
      have hold : t.insert (rule.textOf l) = t := htext ▸ congrArg Prod.fst hintern
      have hlabel : l.withLabel (t.intern (rule.textOf l)).2 = l := by
        rw [← htext, hintern]
        unfold Link.withLabel
        rw [← ha]
      rw [labelLinks_cons hagrees]
      simp only [hold, hlabel, labelLinks_of_standsIn hrest]

/-! ## What a run leaves behind -/

/-- The run has given every link of the linkage the label that the rule spells
for it, and has changed nothing else but to add the new texts to the table. -/
structure Labeling.IsComplete (rule : LabelRule) (t : LabelTable) (k : Linkage) (run : Labeling) :
    Prop where
  mismatch?_eq : run.mismatch? = none
  words_eq : run.linkage.words = k.words
  cost_eq : run.linkage.cost = k.cost
  size_eq : run.linkage.size = k.size
  getElem?_links : ∀ (i : Nat) (l : Link), k.links[i]? = some l →
    ∃ a, run.linkage.links[i]? = some (l.withLabel a) ∧
      a.text = rule.label l.leftConnector l.rightConnector ∧ a.StandsIn run.table
  /-- Every entry is where it was. -/
  id_eq : run.table.id = t.id
  kept : t.texts <+: run.table.texts
  mem_texts_iff : ∀ s, s ∈ run.table.texts ↔
    s ∈ t.texts ∨ ∃ l ∈ k.links, rule.label l.leftConnector l.rightConnector = s
  size_table : run.table.size =
    t.size + ((k.links.map rule.textOf).dedup.filter (· ∉ t.texts)).length
  sameEntry_iff : ∀ l ∈ run.linkage.links, ∀ m ∈ run.linkage.links, ∀ a ∈ l.label, ∀ b ∈ m.label,
    (a.sameEntry b = true ↔ a.text = b.text)
  /-- A second run changes neither the linkage nor the table. -/
  again : run.linkage.deriveLabels rule run.table = run

namespace Linkage

variable {rule : LabelRule} {k : Linkage} {t : LabelTable}

/-- A run leaves the labels that a further run would derive. -/
theorem labeled_deriveLabels (h : ∀ l ∈ k.links, rule.AgreesOn l) :
    ∀ m ∈ (k.deriveLabels rule t).linkage.links, rule.AgreesOn m ∧
      ∃ a, m.label = some a ∧ a.text = rule.textOf m ∧
        a.StandsIn (k.deriveLabels rule t).table := by
  intro m hm
  have hspelling : m.spelling ∈ k.links.map rule.spell :=
    (isLabeledBy_deriveLabels (t := t) h).spelling_eq ▸ List.mem_map_of_mem hm
  obtain ⟨l, hl, hspelled⟩ := List.mem_map.mp hspelling
  obtain ⟨a, rfl, htext⟩ := Link.exists_eq_withLabel hspelled.symm
  exact ⟨(h l hl).of_bare_eq rfl, a, rfl, htext, standsIn_deriveLabels h _ hm a rfl⟩

/-- A run that leaves the links and the table as they are leaves the linkage
as it is. -/
theorem deriveLabels_eq_of_labelLinks
    (h : Labeling.labelLinks rule t k.links = (t, k.links, none)) :
    k.deriveLabels rule t = ⟨t, k, none⟩ := by
  have hlinks : (k.relabel _ (Labeling.bare_labelLinks rule t k.links)).links = k.links :=
    congrArg (·.2.1) h
  have hlinkage : k.relabel _ (Labeling.bare_labelLinks rule t k.links) = k :=
    ext_iff.mpr ⟨rfl, hlinks, rfl⟩
  unfold deriveLabels
  rw [hlinkage, h]

theorem deriveLabels_deriveLabels (h : ∀ l ∈ k.links, rule.AgreesOn l) :
    (k.deriveLabels rule t).linkage.deriveLabels rule (k.deriveLabels rule t).table
      = k.deriveLabels rule t := by
  rw [deriveLabels_eq_of_labelLinks (Labeling.labelLinks_of_standsIn (labeled_deriveLabels h)),
    ← mismatch_deriveLabels_eq_none_iff.mpr h]

/-- A run over a linkage whose connectors agree labels every link, whatever
labels the links had and whatever the table held. -/
theorem deriveLabels_isComplete (h : ∀ l ∈ k.links, rule.AgreesOn l) (t : LabelTable) :
    (k.deriveLabels rule t).IsComplete rule t k where
  mismatch?_eq := mismatch_deriveLabels_eq_none_iff.mpr h
  words_eq := rfl
  cost_eq := rfl
  size_eq := by
    have hlength := congrArg List.length (isLabeledBy_deriveLabels (t := t) h).spelling_eq
    rwa [List.length_map, List.length_map] at hlength
  getElem?_links _ _ hl := Labeling.getElem?_labelLinks h hl
  id_eq := (growsBy_deriveLabels h).id_eq
  kept := (growsBy_deriveLabels h).kept
  mem_texts_iff s := by
    rw [(growsBy_deriveLabels h).mem_iff, List.mem_map]
    rfl
  size_table := (growsBy_deriveLabels h).size_eq
  sameEntry_iff l hl m hm a ha b hb :=
    (standsIn_deriveLabels h l hl a ha).sameEntry_iff (standsIn_deriveLabels h m hm b hb)
  again := deriveLabels_deriveLabels h

/-- Two clauses with different labels get one label. It is the one entry that
the table did not have. -/
theorem deriveLabels_isComplete_nested : ∃ (t : LabelTable) (run : Labeling),
    (∀ l ∈ Sample.nested.links, LabelRule.tagOnly.AgreesOn l) ∧
    run = Sample.nested.deriveLabels .tagOnly t ∧ run.IsComplete .tagOnly t Sample.nested ∧
    Sample.nested.links.map (fun l => l.label.map Label.text) = [some "Ca", some "Cb", some "Wd"] ∧
    run.linkage.links.map (fun l => l.label.map Label.text) = [some "C", some "C", some "W"] ∧
    t.texts = ["W", "S"] ∧ run.table.size = 3 := by
  have hagrees : ∀ l ∈ Sample.nested.links, LabelRule.tagOnly.AgreesOn l := by decide +kernel
  let t : LabelTable := ⟨1, ["W", "S"], by decide⟩
  have hcomplete := deriveLabels_isComplete hagrees t
  have hnew : ((Sample.nested.links.map LabelRule.tagOnly.textOf).dedup.filter
      (· ∉ t.texts)).length = 1 := by decide +kernel
  refine ⟨t, _, hagrees, rfl, hcomplete, by decide +kernel, by decide +kernel, rfl, ?_⟩
  rw [hcomplete.size_table, hnew]
  rfl

end Linkage

end LinkParse
