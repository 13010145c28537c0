import LinkParse.Linkage.Labeling
import Mathlib.Data.List.Infix

/-!
# Labels and their tables

A run of `deriveLabels` over links whose connectors agree gives every link
the text of the label rule (`isLabeledBy_deriveLabels`), and the table grows
by just these texts (`growsBy_deriveLabels`): entries stay where they are, so
labels keep standing for what they stood for.

Which entry a label has depends on what the table held before. A link's
*spelling* leaves the entry out, and so do comparisons of linkages that were
labeled on different occasions (`SpelledAlike`).
-/

namespace LinkParse

/-! ## Tables that grow -/

/-- The label is an entry of the table. -/
def Label.StandsIn (a : Label) (t : LabelTable) : Prop :=
  a.table = t.id ∧ t.texts[a.entry]? = some a.text

namespace LabelTable

/-- `u` is a later state of the table `t`: every entry is where it was, and
the entries behind are the new ones among the texts. -/
structure GrowsBy (t : LabelTable) (texts : List String) (u : LabelTable) : Prop where
  id_eq : u.id = t.id
  kept : t.texts <+: u.texts
  mem_iff : ∀ s, s ∈ u.texts ↔ s ∈ t.texts ∨ s ∈ texts

variable {t u v : LabelTable} {text : String} {texts more : List String}

theorem GrowsBy.refl (t : LabelTable) : t.GrowsBy [] t := ⟨rfl, List.prefix_rfl, by simp⟩

theorem GrowsBy.trans (h : t.GrowsBy texts u) (h' : u.GrowsBy more v) :
    t.GrowsBy (texts ++ more) v where
  id_eq := h'.id_eq.trans h.id_eq
  kept := h.kept.trans h'.kept
  mem_iff s := by rw [h'.mem_iff, h.mem_iff, List.mem_append, or_assoc]

theorem growsBy_insert (t : LabelTable) (text : String) : t.GrowsBy [text] (t.insert text) := by
  unfold insert
  split
  · next hold =>
    refine ⟨rfl, List.prefix_rfl, fun s => ?_⟩
    rw [List.mem_singleton, iff_self_or]
    rintro rfl
    exact hold
  · exact ⟨rfl, List.prefix_append .., fun s => List.mem_append⟩

/-- Growing takes no entry away from a label. -/
theorem GrowsBy.standsIn {a : Label} (h : t.GrowsBy texts u) (ha : a.StandsIn t) : a.StandsIn u :=
  ⟨ha.1.trans h.id_eq.symm, by
    obtain ⟨hlt, htext⟩ := List.getElem?_eq_some_iff.mp ha.2
    rw [← htext]
    exact List.prefix_iff_getElem?.mp h.kept _ hlt⟩

theorem standsIn_intern (t : LabelTable) (text : String) :
    (t.intern text).2.StandsIn (t.intern text).1 := by
  refine ⟨(growsBy_insert t text).id_eq.symm, ?_⟩
  show (t.insert text).texts[(t.texts.idxOf? text).getD t.texts.length]? = some text
  rw [← List.idxOf_eq_getD_idxOf?]
  unfold insert
  split
  · next hold => exact List.getElem?_idxOf hold
  · next hnew =>
    rw [List.idxOf_eq_length hnew]
    exact List.getElem?_concat_length

end LabelTable

/-! ## Spellings -/

/-- A link up to the entry of its label. -/
def Link.spelling (l : Link) : Link × Option String := (l.bare, l.label.map Label.text)

@[simp] theorem Link.spelling_withLabel (l : Link) (a : Label) :
    (l.withLabel a).spelling = (l.bare, some a.text) := rfl

namespace LabelRule

def textOf (rule : LabelRule) (l : Link) : String := rule.label l.leftConnector l.rightConnector

/-- The spelling that the rule gives a link, whatever label it had. -/
def spell (rule : LabelRule) (l : Link) : Link × Option String := (l.bare, some (rule.textOf l))

def AgreesOn (rule : LabelRule) (l : Link) : Prop :=
  rule.agrees l.leftConnector l.rightConnector = true

instance (rule : LabelRule) (l : Link) : Decidable (rule.AgreesOn l) :=
  inferInstanceAs (Decidable (_ = _))

variable {rule : LabelRule} {l m : Link}

theorem textOf_of_bare_eq (rule : LabelRule) (h : l.bare = m.bare) :
    rule.textOf l = rule.textOf m :=
  show rule.textOf l.bare = rule.textOf m.bare from congrArg _ h

theorem AgreesOn.of_bare_eq (hl : rule.AgreesOn l) (h : l.bare = m.bare) : rule.AgreesOn m :=
  show rule.AgreesOn m.bare from h ▸ hl

end LabelRule

namespace Linkage

/-- The linkages differ in the entries of labels at most. -/
structure SpelledAlike (k m : Linkage) : Prop where
  words_eq : k.words = m.words
  cost_eq : k.cost = m.cost
  spelling_eq : k.links.map Link.spelling = m.links.map Link.spelling

/-- `m` is the linkage `k` with the labels that the rule spells. -/
structure IsLabeledBy (rule : LabelRule) (k m : Linkage) : Prop where
  words_eq : m.words = k.words
  cost_eq : m.cost = k.cost
  spelling_eq : m.links.map Link.spelling = k.links.map rule.spell

variable {rule : LabelRule} {k m n : Linkage}

/-- A rule gives a linkage one spelling. -/
theorem IsLabeledBy.spelledAlike (h : IsLabeledBy rule k m) (h' : IsLabeledBy rule k n) :
    m.SpelledAlike n :=
  ⟨h.words_eq.trans h'.words_eq.symm, h.cost_eq.trans h'.cost_eq.symm,
    h.spelling_eq.trans h'.spelling_eq.symm⟩

theorem IsLabeledBy.isLabeled (h : IsLabeledBy rule k m) : m.isLabeled = true := by
  refine List.all_eq_true.mpr fun l hl => ?_
  have hspelling : l.spelling ∈ k.links.map rule.spell :=
    h.spelling_eq ▸ List.mem_map_of_mem hl
  obtain ⟨l', -, hl'⟩ := List.mem_map.mp hspelling
  have htext : some (rule.textOf l') = l.label.map Label.text := congrArg Prod.snd hl'
  rw [← Option.isSome_map, ← htext]
  rfl

theorem IsLabeledBy.bare_eq (h : IsLabeledBy rule k m) :
    m.links.map Link.bare = k.links.map Link.bare := by
  have hfst := congrArg (List.map Prod.fst) h.spelling_eq
  rwa [List.map_map, List.map_map] at hfst

end Linkage

/-! ## Runs of label derivation -/

namespace Labeling

variable {rule : LabelRule}

theorem labelLinks_cons {t : LabelTable} {l : Link} {links : List Link} (h : rule.AgreesOn l) :
    labelLinks rule t (l :: links) =
      let u := t.insert (rule.textOf l)
      ((labelLinks rule u links).1,
        l.withLabel (t.intern (rule.textOf l)).2 :: (labelLinks rule u links).2.1,
        (labelLinks rule u links).2.2) :=
  if_pos h

/-- A run stops unless the connectors of every link agree. -/
theorem labelLinks_mismatch_eq_none_iff : ∀ {t : LabelTable} {links : List Link},
    (labelLinks rule t links).2.2 = none ↔ ∀ l ∈ links, rule.AgreesOn l
  | _, [] => by simp [labelLinks]
  | t, l :: links => by
      rw [List.forall_mem_cons]
      unfold labelLinks
      split
      · next hl => exact labelLinks_mismatch_eq_none_iff.trans (and_iff_right hl).symm
      · next hl => exact iff_of_false (Option.some_ne_none _) fun h => hl h.1

theorem spelling_labelLinks : ∀ {t : LabelTable} {links : List Link},
    (∀ l ∈ links, rule.AgreesOn l) →
      (labelLinks rule t links).2.1.map Link.spelling = links.map rule.spell
  | _, [], _ => rfl
  | t, l :: links, h => by
      rw [List.forall_mem_cons] at h
      rw [labelLinks_cons h.1]
      exact congrArg (_ :: ·) (spelling_labelLinks h.2)

theorem growsBy_labelLinks : ∀ {t : LabelTable} {links : List Link},
    (∀ l ∈ links, rule.AgreesOn l) →
      t.GrowsBy (links.map rule.textOf) (labelLinks rule t links).1
  | t, [], _ => .refl t
  | t, l :: links, h => by
      rw [List.forall_mem_cons] at h
      rw [labelLinks_cons h.1]
      exact (t.growsBy_insert _).trans (growsBy_labelLinks h.2)

theorem standsIn_labelLinks : ∀ {t : LabelTable} {links : List Link},
    (∀ l ∈ links, rule.AgreesOn l) → ∀ l ∈ (labelLinks rule t links).2.1, ∀ a ∈ l.label,
      a.StandsIn (labelLinks rule t links).1
  | _, [], _ => nofun
  | t, l :: links, h => by
      rw [List.forall_mem_cons] at h
      rw [labelLinks_cons h.1]
      refine List.forall_mem_cons.mpr ⟨fun a ha => ?_, standsIn_labelLinks h.2⟩
      obtain rfl := Option.mem_some_iff.mp ha
      exact (growsBy_labelLinks h.2).standsIn (t.standsIn_intern _)

end Labeling

namespace Linkage

variable {rule : LabelRule} {k : Linkage} {t : LabelTable}

theorem mismatch_deriveLabels_eq_none_iff :
    (k.deriveLabels rule t).mismatch? = none ↔ ∀ l ∈ k.links, rule.AgreesOn l :=
  Labeling.labelLinks_mismatch_eq_none_iff

theorem isLabeledBy_deriveLabels (h : ∀ l ∈ k.links, rule.AgreesOn l) :
    IsLabeledBy rule k (k.deriveLabels rule t).linkage :=
  ⟨rfl, rfl, Labeling.spelling_labelLinks h⟩

theorem growsBy_deriveLabels (h : ∀ l ∈ k.links, rule.AgreesOn l) :
    t.GrowsBy (k.links.map rule.textOf) (k.deriveLabels rule t).table :=
  Labeling.growsBy_labelLinks h

theorem standsIn_deriveLabels (h : ∀ l ∈ k.links, rule.AgreesOn l) :
    ∀ l ∈ (k.deriveLabels rule t).linkage.links, ∀ a ∈ l.label,
      a.StandsIn (k.deriveLabels rule t).table :=
  Labeling.standsIn_labelLinks h

end Linkage

end LinkParse
