import LinkParse.Proofs.Construction
import LinkParse.Proofs.Derivation
import LinkParse.Proofs.Recognition

/-!
# Merged labels as a semilattice

The usual rule gives two connectors that agree a body that is at least as definite
as theirs. It takes the left subtype unless that is the wildcard, but where both
agree the side does not matter (`LabelRule.mergeSubtype_comm`), and of three
subtypes the first definite one is taken in any case
(`LabelRule.mergeSubtype_assoc`). A sequence that is longer than the other keeps
its tail, which changes neither law.

So bodies that agree pairwise can be merged in any order, and a body merged with
itself is itself (`LabelRule.IsSemilattice`). The links of a sample are written
this way: a label stands on both sides, and is the label that is derived
(`Sample.HasWrittenLabels`).
-/

namespace LinkParse

namespace LabelRule

/-! ## Subtypes -/

section

variable {a b c : Char}

/-- The subtype at a position that two sequences have. -/
def mergeSubtype (a b : Char) : Char := if a == wildcard then b else a

def SubtypeAgrees (a b : Char) : Prop := a = b ∨ a = wildcard ∨ b = wildcard

theorem mergeSubtype_wildcard (b : Char) : mergeSubtype wildcard b = b := if_pos rfl

theorem mergeSubtype_of_ne (h : a ≠ wildcard) : mergeSubtype a b = a :=
  if_neg fun heq => h (beq_iff_eq.mp heq)

theorem mergeSubtype_self (a : Char) : mergeSubtype a a = a := ite_self a

theorem mergeSubtype_comm (h : SubtypeAgrees a b) : mergeSubtype a b = mergeSubtype b a := by
  by_cases ha : a = wildcard
  · by_cases hb : b = wildcard
    · rw [ha, hb]
    · rw [ha, mergeSubtype_wildcard, mergeSubtype_of_ne hb]
  · rcases h with rfl | hwild | rfl
    · rfl
    · exact absurd hwild ha
    · rw [mergeSubtype_wildcard, mergeSubtype_of_ne ha]

theorem mergeSubtype_assoc (a b c : Char) :
    mergeSubtype (mergeSubtype a b) c = mergeSubtype a (mergeSubtype b c) := by
  by_cases ha : a = wildcard
  · rw [ha, mergeSubtype_wildcard, mergeSubtype_wildcard]
  · rw [mergeSubtype_of_ne ha, mergeSubtype_of_ne ha, mergeSubtype_of_ne ha]

theorem SubtypeAgrees.symm (h : SubtypeAgrees a b) : SubtypeAgrees b a :=
  h.imp Eq.symm Or.symm

/-- What is merged is one of the two. -/
theorem SubtypeAgrees.merge (hac : SubtypeAgrees a c) (hbc : SubtypeAgrees b c) :
    SubtypeAgrees (mergeSubtype a b) c := by
  by_cases ha : a = wildcard
  · rw [ha, mergeSubtype_wildcard]
    exact hbc
  · rw [mergeSubtype_of_ne ha]
    exact hac

end

section

variable {a b : Char} {as bs cs : List Char}

theorem subtypesAgree_cons : subtypesAgree (a :: as) (b :: bs) = true ↔
    SubtypeAgrees a b ∧ subtypesAgree as bs = true := by
  simp only [subtypesAgree, SubtypeAgrees, Bool.and_eq_true, Bool.or_eq_true, beq_iff_eq, or_assoc]

theorem subtypesAgree_nil (as : List Char) : subtypesAgree as [] = true := by cases as <;> rfl

theorem mergeSubtypes_cons :
    mergeSubtypes (a :: as) (b :: bs) = mergeSubtype a b :: mergeSubtypes as bs := rfl

theorem mergeSubtypes_nil (as : List Char) : mergeSubtypes as [] = as := by cases as <;> rfl

theorem subtypesAgree_self : ∀ as : List Char, subtypesAgree as as = true
  | [] => rfl
  | _ :: as => subtypesAgree_cons.mpr ⟨.inl rfl, subtypesAgree_self as⟩

theorem subtypesAgree_symm : ∀ {as bs : List Char},
    subtypesAgree as bs = true → subtypesAgree bs as = true
  | [], bs, _ => subtypesAgree_nil bs
  | _ :: _, [], _ => rfl
  | a :: as, b :: bs, h => by
      rw [subtypesAgree_cons] at h ⊢
      exact ⟨h.1.symm, subtypesAgree_symm h.2⟩

theorem mergeSubtypes_self : ∀ as : List Char, mergeSubtypes as as = as
  | [] => rfl
  | a :: as => by rw [mergeSubtypes_cons, mergeSubtype_self, mergeSubtypes_self as]

theorem mergeSubtypes_comm : ∀ {as bs : List Char},
    subtypesAgree as bs = true → mergeSubtypes as bs = mergeSubtypes bs as
  | [], bs, _ => (mergeSubtypes_nil bs).symm
  | _ :: _, [], _ => rfl
  | a :: as, b :: bs, h => by
      rw [subtypesAgree_cons] at h
      rw [mergeSubtypes_cons, mergeSubtypes_cons, mergeSubtype_comm h.1, mergeSubtypes_comm h.2]

/-- Wherever the sequences end. -/
theorem mergeSubtypes_assoc : ∀ as bs cs : List Char,
    mergeSubtypes (mergeSubtypes as bs) cs = mergeSubtypes as (mergeSubtypes bs cs)
  | [], _, _ => rfl
  | _ :: _, [], _ => rfl
  | a :: as, b :: bs, [] => mergeSubtypes_nil _
  | a :: as, b :: bs, c :: cs => by
      simp only [mergeSubtypes_cons, mergeSubtype_assoc, mergeSubtypes_assoc as bs cs]

theorem subtypesAgree_merge : ∀ {as bs cs : List Char}, subtypesAgree as cs = true →
    subtypesAgree bs cs = true → subtypesAgree (mergeSubtypes as bs) cs = true
  | [], _, _, _, hbc => hbc
  | _ :: _, [], _, hac, _ => hac
  | _ :: _, _ :: _, [], _, _ => rfl
  | a :: as, b :: bs, c :: cs, hac, hbc => by
      rw [subtypesAgree_cons] at hac hbc
      rw [mergeSubtypes_cons, subtypesAgree_cons]
      exact ⟨hac.1.merge hbc.1, subtypesAgree_merge hac.2 hbc.2⟩

end

end LabelRule

/-! ## Bodies -/

namespace Connector

open LabelRule

variable {a a' b b' c m n : Connector}

theorem body_eq_iff : a.body = b.body ↔ a.tag = b.tag ∧ a.subtypes = b.subtypes := by
  constructor
  · intro h
    have htag : a.tag.toList = b.tag.toList := by rw [← takeWhile_body, h, takeWhile_body]
    exact ⟨String.toList_inj.mp htag, by rw [← dropWhile_body, h, dropWhile_body]⟩
  · rintro ⟨htag, hsubtypes⟩
    rw [body, htag, hsubtypes, body]

/-- A connector has the label of two others as its body. -/
theorem body_eq_label_iff : m.body = subscriptIntersection.label a b ↔
    m.tag = a.tag ∧ m.subtypes = mergeSubtypes a.subtypes b.subtypes := by
  rw [← body_merge, body_eq_iff]
  rfl

theorem agrees_congr (ha : a.body = a'.body) (hb : b.body = b'.body) :
    subscriptIntersection.agrees a b = subscriptIntersection.agrees a' b' := by
  obtain ⟨hatag, hasubtypes⟩ := body_eq_iff.mp ha
  obtain ⟨hbtag, hbsubtypes⟩ := body_eq_iff.mp hb
  rw [Bool.eq_iff_iff, agrees_iff, agrees_iff, hatag, hasubtypes, hbtag, hbsubtypes]

theorem label_congr (ha : a.body = a'.body) (hb : b.body = b'.body) :
    subscriptIntersection.label a b = subscriptIntersection.label a' b' := by
  obtain ⟨hatag, hasubtypes⟩ := body_eq_iff.mp ha
  obtain ⟨-, hbsubtypes⟩ := body_eq_iff.mp hb
  rw [← body_merge a b, body_eq_label_iff, ← hasubtypes, ← hbsubtypes]
  exact ⟨hatag, rfl⟩

theorem agrees_self (a : Connector) : subscriptIntersection.agrees a a = true :=
  agrees_iff.mpr ⟨rfl, subtypesAgree_self a.subtypes⟩

theorem label_self (a : Connector) : subscriptIntersection.label a a = a.body :=
  (body_eq_label_iff.mpr ⟨rfl, (mergeSubtypes_self a.subtypes).symm⟩).symm

theorem agrees_symm (h : subscriptIntersection.agrees a b = true) :
    subscriptIntersection.agrees b a = true := by
  rw [agrees_iff] at h ⊢
  exact ⟨h.1.symm, subtypesAgree_symm h.2⟩

theorem label_comm (h : subscriptIntersection.agrees a b = true) :
    subscriptIntersection.label a b = subscriptIntersection.label b a := by
  obtain ⟨htag, hsubtypes⟩ := agrees_iff.mp h
  rw [← body_merge a b, body_eq_label_iff]
  exact ⟨htag, mergeSubtypes_comm hsubtypes⟩

theorem agrees_merged (hac : subscriptIntersection.agrees a c = true)
    (hbc : subscriptIntersection.agrees b c = true)
    (hm : m.body = subscriptIntersection.label a b) :
    subscriptIntersection.agrees m c = true := by
  obtain ⟨htag, hsubtypes⟩ := body_eq_label_iff.mp hm
  rw [agrees_iff] at hac hbc ⊢
  rw [htag, hsubtypes]
  exact ⟨hac.1, subtypesAgree_merge hac.2 hbc.2⟩

theorem label_assoc (hm : m.body = subscriptIntersection.label a b)
    (hn : n.body = subscriptIntersection.label b c) :
    subscriptIntersection.label m c = subscriptIntersection.label a n := by
  obtain ⟨hmtag, hmsubtypes⟩ := body_eq_label_iff.mp hm
  obtain ⟨-, hnsubtypes⟩ := body_eq_label_iff.mp hn
  rw [← body_merge m c, body_eq_label_iff, hnsubtypes, ← mergeSubtypes_assoc, ← hmsubtypes]
  exact ⟨hmtag, rfl⟩

end Connector

/-! ## The laws -/

namespace LabelRule

/-- The labels of a rule are a semilattice on the bodies of connectors, as far as
these agree. -/
structure IsSemilattice (rule : LabelRule) : Prop where
  /-- Only bodies count, not directions. -/
  agrees_congr {a a' b b' : Connector} (ha : a.body = a'.body) (hb : b.body = b'.body) :
    rule.agrees a b = rule.agrees a' b'
  label_congr {a a' b b' : Connector} (ha : a.body = a'.body) (hb : b.body = b'.body) :
    rule.label a b = rule.label a' b'
  agrees_self (a : Connector) : rule.agrees a a = true
  label_self (a : Connector) : rule.label a a = a.body
  agrees_symm {a b : Connector} (h : rule.agrees a b = true) : rule.agrees b a = true
  label_comm {a b : Connector} (h : rule.agrees a b = true) : rule.label a b = rule.label b a
  /-- A label is read as a body again. -/
  exists_merged {a b : Connector} (h : rule.agrees a b = true) (d : Direction) :
    ∃ m, Connector.parse ((rule.label a b).push d.suffix) = .ok m ∧ m.body = rule.label a b
  agrees_merged {a b c m : Connector} (hab : rule.agrees a b = true) (hac : rule.agrees a c = true)
    (hbc : rule.agrees b c = true) (hm : m.body = rule.label a b) : rule.agrees m c = true
  label_assoc {a b c m n : Connector} (hab : rule.agrees a b = true)
    (hac : rule.agrees a c = true) (hbc : rule.agrees b c = true) (hm : m.body = rule.label a b)
    (hn : n.body = rule.label b c) : rule.label m c = rule.label a n

theorem bodies_isSemilattice : IsSemilattice subscriptIntersection where
  agrees_congr := Connector.agrees_congr
  label_congr := Connector.label_congr
  agrees_self := Connector.agrees_self
  label_self := Connector.label_self
  agrees_symm := Connector.agrees_symm
  label_comm := Connector.label_comm
  exists_merged {a b} _ d := (a.merge b).exists_parse_body_push d
  agrees_merged _ hac hbc hm := Connector.agrees_merged hac hbc hm
  label_assoc _ _ _ hm hn := Connector.label_assoc hm hn

namespace IsSemilattice

variable {rule : LabelRule} {a b : Connector} (h : IsSemilattice rule)

include h

theorem agrees_of_body_eq (hab : a.body = b.body) : rule.agrees a b = true :=
  (h.agrees_congr rfl hab.symm).trans (h.agrees_self a)

theorem label_of_body_eq (hab : a.body = b.body) : rule.label a b = a.body :=
  (h.label_congr rfl hab.symm).trans (h.label_self a)

end IsSemilattice

end LabelRule

/-! ## Links that are written by their labels -/

namespace Sample

variable {words left right : Nat} {inputs : List (Nat × Nat × LinkText)} {cost : Binary64}
  {k : Linkage} {table : LabelTable} {l : Link} {s : String}

/-- Each link that was written by its label has it. -/
def HasWrittenLabels (inputs : List (Nat × Nat × LinkText)) (k : Linkage) : Prop :=
  ∀ (i left right : Nat) (s : String), inputs[i]? = some (left, right, .label s) →
    ∃ l a, k.links[i]? = some l ∧ l.left = left ∧ l.right = right ∧ l.label = some a ∧ a.text = s

open LabelRule

theorem agreesOn_of_link_label (h : link left right (.label s) = .ok l) :
    subscriptIntersection.AgreesOn l := by
  obtain ⟨-, -, hl, hr, -⟩ := link_label_eq_ok_iff.mp h
  exact bodies_isSemilattice.agrees_of_body_eq (hl.trans hr.symm)

theorem textOf_of_link_label (h : link left right (.label s) = .ok l) :
    subscriptIntersection.textOf l = s := by
  obtain ⟨-, -, hl, hr, -⟩ := link_label_eq_ok_iff.mp h
  exact (bodies_isSemilattice.label_of_body_eq (hl.trans hr.symm)).trans hl

theorem exists_link_body (c : Connector) (hlt : left < right) :
    ∃ l, link left right (.label c.body) = .ok l :=
  exists_link_label_iff.mpr ⟨hlt, (Connector.exists_body_eq_iff _).mp ⟨c, rfl, rfl⟩⟩

theorem linkage_eq_ok_iff : linkage words inputs cost = .ok k ↔ k.words = words ∧ k.cost = cost ∧
    (inputs.mapM fun p => link p.1 p.2.1 p.2.2) = .ok k.links := by
  rw [linkage, bind_eq_ok_iff]
  simp only [mapError_eq_ok_iff, Linkage.make_eq_ok_iff]
  constructor
  · rintro ⟨links, hlinks, hwords, rfl, hcost⟩
    exact ⟨hwords, hcost, hlinks⟩
  · rintro ⟨hwords, hcost, hlinks⟩
    exact ⟨k.links, hlinks, hwords, rfl, hcost⟩

theorem labeled_eq_ok_iff {run : LabelTable × Linkage} : labeled table k = .ok run ↔
    (∀ l ∈ k.links, subscriptIntersection.AgreesOn l) ∧
      run = ((k.deriveLabels subscriptIntersection table).table,
        (k.deriveLabels subscriptIntersection table).linkage) := by
  rw [← Linkage.mismatch_deriveLabels_eq_none_iff (t := table)]
  unfold labeled
  dsimp only
  split
  · next mismatch hsome =>
    rw [hsome]
    exact iff_of_false nofun fun h => nomatch h.1
  · next hnone =>
    rw [and_iff_right hnone, Except.ok.injEq, eq_comm]

/-- A sample that is written by labels only has connectors that agree. -/
theorem exists_labeled (h : linkage words inputs cost = .ok k)
    (hlabels : ∀ p ∈ inputs, ∃ s, p.2.2 = .label s) (table : LabelTable) :
    ∃ run, labeled table k = .ok run := by
  obtain ⟨-, -, hlinks⟩ := linkage_eq_ok_iff.mp h
  refine ⟨_, labeled_eq_ok_iff.mpr ⟨fun l hl => ?_, rfl⟩⟩
  obtain ⟨⟨left, right, text⟩, hp, hwritten⟩ := exists_mem_of_mapM_eq_ok hlinks l hl
  obtain ⟨s, rfl⟩ := hlabels _ hp
  exact agreesOn_of_link_label hwritten

theorem hasWrittenLabels_of_labeled (h : linkage words inputs cost = .ok k)
    {run : LabelTable × Linkage} (hrun : labeled table k = .ok run) :
    HasWrittenLabels inputs run.2 := by
  obtain ⟨-, -, hlinks⟩ := linkage_eq_ok_iff.mp h
  obtain ⟨hagrees, rfl⟩ := labeled_eq_ok_iff.mp hrun
  intro i left right s hi
  obtain ⟨l, hl, hwritten⟩ := exists_getElem?_of_mapM_eq_ok hlinks hi
  obtain ⟨hleft, hright, -⟩ := link_label_eq_ok_iff.mp hwritten
  obtain ⟨a, hlabeled, htext, -⟩ :=
    (Linkage.deriveLabels_isComplete hagrees table).getElem?_links i l hl
  exact ⟨_, a, hlabeled, hleft, hright, rfl, htext.trans (textOf_of_link_label hwritten)⟩

end Sample

/-! ## The usual rule -/

/-- The labels of the usual rule are a semilattice on bodies. So any body can be
written down as the label of a link, on both sides of which it then stands, and
is the label that is derived, whatever the other links are and whatever the table
held. -/
theorem LabelRule.subscriptIntersection_isSemilattice :
    IsSemilattice subscriptIntersection ∧
      (∀ (c : Connector) (left right : Nat), left < right →
        ∃ l, Sample.link left right (.label c.body) = .ok l) ∧
      ∀ (words : Nat) (inputs : List (Nat × Nat × Sample.LinkText)) (cost : Binary64) (k : Linkage)
        (table : LabelTable), Sample.linkage words inputs cost = .ok k →
        ((∀ p ∈ inputs, ∃ s, p.2.2 = .label s) → ∃ run, Sample.labeled table k = .ok run) ∧
        ∀ run, Sample.labeled table k = .ok run → Sample.HasWrittenLabels inputs run.2 :=
  ⟨bodies_isSemilattice, fun c _ _ hlt => Sample.exists_link_body c hlt, fun _ _ _ _ table h =>
    ⟨fun hlabels => Sample.exists_labeled h hlabels table, fun _ hrun =>
      Sample.hasWrittenLabels_of_labeled h hrun⟩⟩

namespace Sample

/-- It is longer than `Ss*b` and has a wildcard behind. -/
def openTail : Connector := (Connector.parse "S**b*-").toOption.get (by decide +kernel)

def labelBesideConnectors : List (Nat × Nat × LinkText) :=
  [(0, 1, .label "Ss*"), (1, 3, .connectors "Os+" "O**-")]

end Sample

/-- Three bodies that agree pairwise, each definite where another one is not; and
a label with a wildcard behind, which it keeps. -/
theorem LabelRule.subscriptIntersection_isSemilattice_wildcards :
    (∃ m n, m.body = "Sssb" ∧ n.body = "S*sb*" ∧
      subscriptIntersection.agrees m Sample.openTail = true ∧
      subscriptIntersection.label m Sample.openTail = "Sssb*" ∧
      subscriptIntersection.label Sample.definiteTail n = "Sssb*") ∧
    ∃ k run, Sample.linkage 4 Sample.labelBesideConnectors .zero = .ok k ∧
      Sample.labeled (.empty 0) k = .ok run ∧
      ∃ l a, run.2.links[0]? = some l ∧ l.label = some a ∧ a.text = "Ss*" := by
  obtain ⟨hlattice, -, hlabels⟩ := subscriptIntersection_isSemilattice
  constructor
  · have hab : subscriptIntersection.agrees Sample.definiteTail Sample.definiteMiddle = true := by
      decide +kernel
    have hac : subscriptIntersection.agrees Sample.definiteTail Sample.openTail = true := by
      decide +kernel
    have hbc : subscriptIntersection.agrees Sample.definiteMiddle Sample.openTail = true := by
      decide +kernel
    let m := Sample.definiteTail.merge Sample.definiteMiddle
    let n := Sample.definiteMiddle.merge Sample.openTail
    have hright : subscriptIntersection.label Sample.definiteTail n = "Sssb*" := by decide +kernel
    have hassoc := hlattice.label_assoc hab hac hbc (show m.body = _ from rfl)
      (show n.body = _ from rfl)
    exact ⟨m, n, by decide +kernel, by decide +kernel, hlattice.agrees_merged hab hac hbc rfl,
      hassoc.trans hright, hright⟩
  · have hsucceeds : ∃ run, (Sample.linkage 4 Sample.labelBesideConnectors .zero >>=
        Sample.labeled (.empty 0)) = .ok run := ⟨_, rfl⟩
    obtain ⟨run, hrun⟩ := hsucceeds
    obtain ⟨k, hk, hrun⟩ := bind_eq_ok_iff.mp hrun
    obtain ⟨-, hwritten⟩ := hlabels _ _ _ k (.empty 0) hk
    obtain ⟨l, a, hl, -, -, ha, htext⟩ := hwritten run hrun 0 0 1 "Ss*" rfl
    exact ⟨k, run, hk, hrun, l, a, hl, ha, htext⟩

end LinkParse
