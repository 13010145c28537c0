import LinkParse.LabelRule
import LinkParse.Proofs.Matching

/-!
# Merged labels as intersections

Two connectors agree under the usual label rule exactly if some label is
accepted by the patterns that are spelled like them, and the label that the
rule then spells is, read as a pattern, what both patterns have in common
(`subscriptIntersection_intersects`).

Position by position: two subtypes fit one label only if they are equal or
one of them is the wildcard (`subtypesAgree_of_accepts`), and then the label
fits both exactly if it fits the definite one (`acceptsSubtypes_merge`).
-/

namespace LinkParse

namespace LabelRule

open Pattern

/-! ## Subtypes -/

theorem mem_mergeSubtypes : ∀ {as bs : List Char} {c : Char},
    c ∈ mergeSubtypes as bs → c ∈ as ∨ c ∈ bs
  | [], _, _, h => .inr h
  | _ :: _, [], _, h => .inl h
  | a :: as, b :: bs, c, h => by
      rw [mergeSubtypes, List.mem_cons] at h
      rcases h with rfl | h
      · split
        · exact .inr List.mem_cons_self
        · exact .inl List.mem_cons_self
      · exact (mem_mergeSubtypes h).imp (List.mem_cons_of_mem _) (List.mem_cons_of_mem _)

/-- The first position of a merged sequence is as definite as either of the
two. -/
theorem fits_merged_iff {a b : Char} {head : Option UInt8}
    (hagree : (a == b || a == wildcard || b == wildcard) = true) :
    ((if a == wildcard then b else a).toUInt8 = wildcardByte ∨
        head = some (if a == wildcard then b else a).toUInt8) ↔
      (a.toUInt8 = wildcardByte ∨ head = some a.toUInt8) ∧
        (b.toUInt8 = wildcardByte ∨ head = some b.toUInt8) := by
  have hwildcard : wildcard.toUInt8 = wildcardByte := rfl
  by_cases ha : a = wildcard
  · subst ha
    simp [hwildcard]
  · simp only [Bool.or_eq_true, beq_iff_eq, ha, or_false] at hagree
    rw [if_neg (by simpa using ha)]
    rcases hagree with rfl | rfl
    · exact (and_self_iff).symm
    · exact (and_iff_left (.inl hwildcard)).symm

/-- A label fits a merged sequence exactly if it fits both. -/
theorem acceptsSubtypes_merge : ∀ {as bs : List Char} {label : List UInt8},
    subtypesAgree as bs = true →
      (acceptsSubtypes ((mergeSubtypes as bs).map Char.toUInt8) label = true ↔
        acceptsSubtypes (as.map Char.toUInt8) label = true ∧
          acceptsSubtypes (bs.map Char.toUInt8) label = true)
  | [], _, _, _ => (and_iff_right rfl).symm
  | _ :: _, [], _, _ => (and_iff_left rfl).symm
  | a :: as, b :: bs, label, h => by
      rw [subtypesAgree, Bool.and_eq_true] at h
      rw [mergeSubtypes, List.map_cons, List.map_cons, List.map_cons, acceptsSubtypes_cons,
        acceptsSubtypes_cons, acceptsSubtypes_cons, fits_merged_iff h.1,
        acceptsSubtypes_merge h.2]
      exact and_and_and_comm

/-- Sequences that one label fits agree: at a position that both have, both
are the label's letter, or one of them is the wildcard. -/
theorem subtypesAgree_of_accepts : ∀ {as bs : List Char} {label : List UInt8},
    (∀ c ∈ as, isSubtypeChar c = true) → (∀ c ∈ bs, isSubtypeChar c = true) →
      acceptsSubtypes (as.map Char.toUInt8) label = true →
      acceptsSubtypes (bs.map Char.toUInt8) label = true → subtypesAgree as bs = true
  | [], _, _, _, _, _, _ => rfl
  | _ :: _, [], _, _, _, _, _ => rfl
  | a :: as, b :: bs, label, has, hbs, hl, hr => by
      rw [List.forall_mem_cons] at has hbs
      rw [List.map_cons, acceptsSubtypes_cons] at hl hr
      have ha := lt_of_isSubtypeChar has.1
      have hb := lt_of_isSubtypeChar hbs.1
      rw [toUInt8_eq_wildcardByte_iff ha] at hl
      rw [toUInt8_eq_wildcardByte_iff hb] at hr
      have hagree : (a == b || a == wildcard || b == wildcard) = true := by
        simp only [Bool.or_eq_true, beq_iff_eq]
        rcases hl.1 with hwild | hleft
        · exact .inl (.inr hwild)
        · rcases hr.1 with hwild | hright
          · exact .inr hwild
          · have hsame : a.toUInt8 = b.toUInt8 := Option.some.inj (hleft.symm.trans hright)
            exact .inl (.inl (Text.toUInt8_inj ha hb hsame))
      rw [subtypesAgree, hagree, Bool.true_and]
      exact subtypesAgree_of_accepts has.2 hbs.2 hl.2 hr.2

end LabelRule

/-! ## Connectors -/

namespace Connector

/-- The connector whose body is the label of the two under the usual rule. -/
def merge (l r : Connector) : Connector :=
  { l with
    subtypes := LabelRule.mergeSubtypes l.subtypes r.subtypes
    subtype_letters := fun _ hc =>
      (LabelRule.mem_mergeSubtypes hc).elim (l.subtype_letters _) (r.subtype_letters _) }

variable {l r : Connector} {label : String}

theorem body_merge (l r : Connector) :
    (l.merge r).body = LabelRule.subscriptIntersection.label l r :=
  (LabelRule.subscriptIntersection_label l r).symm

theorem agrees_iff : LabelRule.subscriptIntersection.agrees l r = true ↔
    l.tag = r.tag ∧ LabelRule.subtypesAgree l.subtypes r.subtypes = true := by
  unfold LabelRule.subscriptIntersection
  rw [Bool.and_eq_true, beq_iff_eq]

theorem accepts_pattern_iff : l.pattern.accepts label = true ↔
    (Text.bytes label).takeWhile Pattern.isTagByte = l.tag.toList.map Char.toUInt8 ∧
      Pattern.acceptsSubtypes (l.subtypes.map Char.toUInt8)
        ((Text.bytes label).dropWhile Pattern.isTagByte) = true := by
  rw [Pattern.accepts_iff, tag_pattern, subtypes_pattern]

/-- A tag is known by its bytes. -/
theorem tag_eq_of_bytes_eq (h : l.tag.toList.map Char.toUInt8 = r.tag.toList.map Char.toUInt8) :
    l.tag = r.tag := by
  have hascii : ∀ (c : Connector), ∀ a ∈ c.tag.toList, a.toNat < 128 := fun c a ha =>
    lt_of_isTagChar (c.tag_letters a ha)
  exact String.toList_inj.mp (Text.map_toUInt8_inj (hascii l) (hascii r) h)

/-- The patterns of two connectors have a label in common only if the
connectors agree. -/
theorem agrees_of_accepts (hl : l.pattern.accepts label = true)
    (hr : r.pattern.accepts label = true) :
    LabelRule.subscriptIntersection.agrees l r = true := by
  rw [accepts_pattern_iff] at hl hr
  exact agrees_iff.mpr ⟨tag_eq_of_bytes_eq (hl.1.symm.trans hr.1),
    LabelRule.subtypesAgree_of_accepts l.subtype_letters r.subtype_letters hl.2 hr.2⟩

theorem accepts_merge_iff (h : LabelRule.subscriptIntersection.agrees l r = true) :
    (l.merge r).pattern.accepts label = true ↔
      l.pattern.accepts label = true ∧ r.pattern.accepts label = true := by
  obtain ⟨htag, hsubtypes⟩ := agrees_iff.mp h
  rw [accepts_pattern_iff, accepts_pattern_iff, accepts_pattern_iff, ← htag]
  show _ ∧ Pattern.acceptsSubtypes ((LabelRule.mergeSubtypes _ _).map _) _ = true ↔ _
  rw [LabelRule.acceptsSubtypes_merge hsubtypes]
  exact and_and_left

end Connector

/-- The usual rule intersects patterns. Connectors agree exactly if the
patterns spelled like them have a label in common; then the label of the two
is a pattern that accepts what both accept, and is itself such a label. -/
theorem LabelRule.subscriptIntersection_intersects (l r : Connector) :
    ∃ p q, Pattern.make l.body = .ok p ∧ Pattern.make r.body = .ok q ∧
      (subscriptIntersection.agrees l r = true ↔
        ∃ label, p.accepts label = true ∧ q.accepts label = true) ∧
      (subscriptIntersection.agrees l r = true →
        ∃ m, Pattern.make (subscriptIntersection.label l r) = .ok m ∧
          m.text = subscriptIntersection.label l r ∧
          (∀ label, m.accepts label = true ↔ p.accepts label = true ∧ q.accepts label = true) ∧
          p.accepts (subscriptIntersection.label l r) = true ∧
          q.accepts (subscriptIntersection.label l r) = true) := by
  have hmerged := (l.merge r).pattern.accepts_text
  rw [← Connector.body_merge]
  refine ⟨l.pattern, r.pattern, l.pattern.make_text, r.pattern.make_text, ?_, ?_⟩
  · constructor
    · intro hagree
      exact ⟨_, (Connector.accepts_merge_iff hagree).mp hmerged⟩
    · rintro ⟨label, hl, hr⟩
      exact Connector.agrees_of_accepts hl hr
  · intro hagree
    obtain ⟨hl, hr⟩ := (Connector.accepts_merge_iff hagree).mp hmerged
    exact ⟨(l.merge r).pattern, (l.merge r).pattern.make_text, rfl,
      fun _ => Connector.accepts_merge_iff hagree, hl, hr⟩

namespace Sample

def definiteTail : Connector := (Connector.parse "Ss*b+").toOption.get (by decide +kernel)

def definiteMiddle : Connector := (Connector.parse "S*s-").toOption.get (by decide +kernel)

end Sample

/-- Each of `Ss*b` and `S*s` has a wildcard where the other one is definite,
and the first one is longer. -/
theorem LabelRule.subscriptIntersection_intersects_wildcards : ∃ p q m,
    Pattern.make "Ss*b" = .ok p ∧ Pattern.make "S*s" = .ok q ∧ Pattern.make "Sssb" = .ok m ∧
      (∀ label, m.accepts label = true ↔ p.accepts label = true ∧ q.accepts label = true) ∧
      p.accepts "Sssb" = true ∧ q.accepts "Sssb" = true := by
  have hagree : subscriptIntersection.agrees Sample.definiteTail Sample.definiteMiddle = true := by
    decide +kernel
  have hlabel : subscriptIntersection.label Sample.definiteTail Sample.definiteMiddle = "Sssb" := by
    decide +kernel
  have htail : Sample.definiteTail.body = "Ss*b" := by decide +kernel
  have hmiddle : Sample.definiteMiddle.body = "S*s" := by decide +kernel
  obtain ⟨p, q, hp, hq, -, hmerge⟩ :=
    subscriptIntersection_intersects Sample.definiteTail Sample.definiteMiddle
  obtain ⟨m, hm, -, haccepts, hl, hr⟩ := hmerge hagree
  rw [htail] at hp
  rw [hmiddle] at hq
  rw [hlabel] at hm hl hr
  exact ⟨p, q, m, hp, hq, hm, haccepts, hl, hr⟩

end LinkParse
