import LinkParse.Proofs.Intersection
import LinkParse.Proofs.Reading
import LinkParse.Sample

/-!
# Texts that are taken as labels

A text can be read as a pattern, as a connector with a sign behind it, or as the
label of a link in a sample sentence. The three readers look at it in different
ways, and all of them take the bodies of connectors and nothing else
(`Pattern.exists_make_iff`, `Connector.exists_parse_push_iff`,
`Sample.exists_link_label_iff`). The label that the usual rule spells is such a
body, so whatever is derived can be written down as a pattern, as a connector and
as a label again (`LabelRule.labels_recognised_alike`).
-/

namespace LinkParse

variable {s : String}

/-! ## As a pattern -/

namespace Pattern

variable {p : Pattern}

/-- A pattern is made of its own text only. -/
theorem make_eq_ok_iff : make s = .ok p ↔ p.text = s := by
  constructor
  · intro h
    unfold make at h
    split at h
    · split at h
      · cases h
      · cases h
        rfl
    · cases h
  · rintro rfl
    exact p.make_text

theorem areParts (p : Pattern) : Connector.AreParts p.tag p.subtypes where
  tag_ne_nil := by
    intro hnil
    have hstarts := p.starts_with_tag
    cases hcs : p.text.toList with
    | nil => rw [hcs] at hstarts; cases hstarts
    | cons c cs =>
        rw [hcs] at hstarts
        have hc : isTagChar c = true := hstarts
        rw [tag, hcs, List.takeWhile_cons_of_pos hc] at hnil
        cases hnil
  tag_letters _ hc := p.isTagChar_of_mem_tag hc
  subtype_letters := p.subtype_letters

theorem exists_make_iff : (∃ p, make s = .ok p) ↔ Connector.IsBody s.toList := by
  constructor
  · rintro ⟨p, hp⟩
    obtain rfl := make_eq_ok_iff.mp hp
    exact ⟨p.tag, p.subtypes, p.areParts, List.takeWhile_append_dropWhile.symm⟩
  · intro h
    obtain ⟨c, hbody, -⟩ := (Connector.exists_body_eq_iff .right).mpr h
    exact ⟨c.pattern, make_eq_ok_iff.mpr hbody⟩

theorem exists_parse_iff (h : Text.IsTrimmed s.toList) :
    (∃ p, parse s = .ok p) ↔ Connector.IsBody s.toList := by
  have htrim : Text.trim s = s := by
    rw [← String.toList_inj, Text.toList_trim, Text.trimChars_eq_self_iff.mpr h]
  rw [parse, htrim]
  exact exists_make_iff

end Pattern

/-! ## With a sign behind it -/

namespace Connector

variable {c : Connector} {d : Direction}

/-- A sign is not blank, so a text in front of it keeps its last character,
whatever that is. -/
theorem parse_push_eq_ok_iff (h : Text.IsTrimmed s.toList) :
    parse (s.push d.suffix) = .ok c ↔ c.body = s ∧ c.direction = d := by
  have htrimmed : Text.IsTrimmed (s.toList ++ [d.suffix]) := h.concat d.isBlank_suffix
  have htrim : (Text.trim (s.push d.suffix)).toList = s.toList ++ [d.suffix] := by
    rw [Text.toList_trim, String.toList_push, Text.trimChars_eq_self_iff.mpr htrimmed]
  rw [parse_eq_ok_iff, ← String.toList_inj, htrim, toList_text, List.append_singleton_inj,
    String.toList_inj, Direction.suffix_inj]

theorem exists_parse_push_iff (h : Text.IsTrimmed s.toList) :
    (∃ c, parse (s.push d.suffix) = .ok c) ↔ IsBody s.toList := by
  simp only [parse_push_eq_ok_iff h]
  exact exists_body_eq_iff d

theorem exists_parse_body_push (c : Connector) (d : Direction) :
    ∃ m, parse (c.body.push d.suffix) = .ok m ∧ m.body = c.body := by
  obtain ⟨m, hm⟩ := (exists_parse_push_iff c.isTrimmed_body).mpr
    ((exists_body_eq_iff _).mp ⟨c, rfl, rfl⟩)
  exact ⟨m, hm, ((parse_push_eq_ok_iff c.isTrimmed_body).mp hm).1⟩

end Connector

/-! ## As the label of a link -/

theorem Link.make_eq_ok_iff {left right : Nat} {lc rc : Connector} {l : Link} :
    Link.make left right lc rc = .ok l ↔ l.left = left ∧ l.right = right ∧
      l.leftConnector = lc ∧ l.rightConnector = rc ∧ l.label = none := by
  constructor
  · intro h
    unfold make at h
    split at h
    · split at h
      · split at h
        · cases h
          exact ⟨rfl, rfl, rfl, rfl, rfl⟩
        · cases h
      · cases h
    · cases h
  · obtain ⟨left', right', lc', rc', label, hlt, hright, hleft⟩ := l
    rintro ⟨rfl, rfl, rfl, rfl, rfl⟩
    unfold make
    rw [dif_pos hlt, dif_pos hright, dif_pos hleft]

namespace Sample

variable {left right : Nat} {l : Link} {c : Connector} {d : Direction}

theorem connectorOfLabel_eq_ok_iff :
    connectorOfLabel s d = .ok c ↔ c.body = s ∧ c.direction = d := by
  rw [connectorOfLabel, mapError_eq_ok_iff, Connector.make_split_eq_ok_iff, String.toList_inj]

/-- The link that is written by a label has connectors with this body on both
sides. -/
theorem link_label_eq_ok_iff : link left right (.label s) = .ok l ↔
    l.left = left ∧ l.right = right ∧ l.leftConnector.body = s ∧ l.rightConnector.body = s ∧
      l.label = none := by
  simp only [link, bind_eq_ok_iff, connectorOfLabel_eq_ok_iff, mapError_eq_ok_iff,
    Link.make_eq_ok_iff]
  constructor
  · rintro ⟨lc, ⟨hlbody, -⟩, rc, ⟨hrbody, -⟩, hleft, hright, rfl, rfl, hlabel⟩
    exact ⟨hleft, hright, hlbody, hrbody, hlabel⟩
  · rintro ⟨hleft, hright, hlbody, hrbody, hlabel⟩
    exact ⟨_, ⟨hlbody, l.points_right⟩, _, ⟨hrbody, l.points_left⟩, hleft, hright, rfl, rfl, hlabel⟩

theorem exists_link_label_iff :
    (∃ l, link left right (.label s) = .ok l) ↔ left < right ∧ Connector.IsBody s.toList := by
  simp only [link_label_eq_ok_iff]
  constructor
  · rintro ⟨l, rfl, rfl, rfl, -⟩
    exact ⟨l.left_lt_right, (Connector.exists_body_eq_iff .right).mp ⟨_, rfl, l.points_right⟩⟩
  · rintro ⟨hlt, hbody⟩
    obtain ⟨lc, hl, hright⟩ := (Connector.exists_body_eq_iff .right).mpr hbody
    obtain ⟨rc, hr, hleft⟩ := (Connector.exists_body_eq_iff .left).mpr hbody
    exact ⟨⟨left, right, lc, rc, none, hlt, hright, hleft⟩, rfl, rfl, hl, hr, rfl⟩

theorem exists_connectorOfLabel_iff :
    (∃ c, connectorOfLabel s d = .ok c) ↔ Connector.IsBody s.toList := by
  simp only [connectorOfLabel_eq_ok_iff]
  exact Connector.exists_body_eq_iff d

theorem exists_connectorOfLabel_eq_error_iff :
    (∃ reason, connectorOfLabel s d = .error (.fixtureLabel s reason)) ↔
      ¬Connector.IsBody s.toList := by
  rw [← exists_connectorOfLabel_iff (d := d)]
  unfold connectorOfLabel
  dsimp only
  generalize Connector.make _ _ d = made
  cases made with
  | ok c => exact iff_of_false nofun fun h => h ⟨c, rfl⟩
  | error reason => exact iff_of_true ⟨reason, rfl⟩ nofun

/-- A link is refused for its label exactly if this is no body. A body may still
stand between words in the wrong order, which is another fault. -/
theorem exists_link_label_eq_error_iff :
    (∃ reason, link left right (.label s) = .error (.fixtureLabel s reason)) ↔
      ¬Connector.IsBody s.toList := by
  constructor
  · rintro ⟨reason, h⟩ hbody
    obtain ⟨lc, hlc⟩ := (exists_connectorOfLabel_iff (d := .right)).mpr hbody
    obtain ⟨rc, hrc⟩ := (exists_connectorOfLabel_iff (d := .left)).mpr hbody
    rw [link, hlc, ok_bind, hrc, ok_bind] at h
    cases hmade : Link.make left right lc rc with
    | ok l => rw [hmade] at h; cases h
    | error fault => rw [hmade] at h; cases h
  · intro h
    obtain ⟨reason, hreason⟩ := exists_connectorOfLabel_eq_error_iff.mpr h
    refine ⟨reason, ?_⟩
    rw [link, hreason]
    rfl

end Sample

/-! ## Labels of the usual rule -/

namespace LabelRule

/-- Of texts without blank ends, patterns are read from the same ones as
connectors from these with a sign behind, and these are the ones by which the
links of a sample are written. The labels of the usual rule are among them. -/
theorem labels_recognised_alike :
    (∀ s, Text.IsTrimmed s.toList →
      ((∃ p, Pattern.parse s = .ok p) ↔ ∃ c, Connector.parse (s.push '+') = .ok c) ∧
      (∀ left right, left < right →
        ((∃ p, Pattern.parse s = .ok p) ↔ ∃ l, Sample.link left right (.label s) = .ok l)) ∧
      ∀ left right, (∃ p, Pattern.parse s = .ok p) ↔
        ¬∃ reason, Sample.link left right (.label s) = .error (.fixtureLabel s reason)) ∧
    ∀ l r, subscriptIntersection.agrees l r = true →
      (∃ p, Pattern.parse (subscriptIntersection.label l r) = .ok p ∧
        p.text = subscriptIntersection.label l r) ∧
      (∃ c, Connector.parse ((subscriptIntersection.label l r).push '+') = .ok c ∧
        c.body = subscriptIntersection.label l r) ∧
      ∀ left right, left < right →
        ∃ link, Sample.link left right (.label (subscriptIntersection.label l r)) = .ok link := by
  constructor
  · intro s hs
    rw [Pattern.exists_parse_iff hs]
    refine ⟨(Connector.exists_parse_push_iff (d := .right) hs).symm, fun left right hlt => ?_,
      fun left right => ?_⟩
    · rw [Sample.exists_link_label_iff, and_iff_right hlt]
    · rw [Sample.exists_link_label_eq_error_iff, not_not]
  · intro l r _
    rw [← Connector.body_merge]
    have hbody : Connector.IsBody (l.merge r).body.toList :=
      (Connector.exists_body_eq_iff _).mp ⟨l.merge r, rfl, rfl⟩
    exact ⟨⟨_, Pattern.parse_text (l.merge r).pattern, rfl⟩,
      (l.merge r).exists_parse_body_push .right, fun left right hlt =>
        Sample.exists_link_label_iff.mpr ⟨hlt, hbody⟩⟩

/-- `Ss*b` is a label for all three readers and `Sß` for none of them. The label
of two connectors that agree is again one. -/
theorem labels_recognised_alike_wildcards :
    Text.IsTrimmed "Ss*b".toList ∧ (∃ p, Pattern.parse "Ss*b" = .ok p) ∧
    (∃ c, Connector.parse "Ss*b+" = .ok c) ∧ (∃ l, Sample.link 0 1 (.label "Ss*b") = .ok l) ∧
    Text.IsTrimmed "Sß".toList ∧ (¬∃ p, Pattern.parse "Sß" = .ok p) ∧
    (∃ reason, Sample.link 1 0 (.label "Sß") = .error (.fixtureLabel "Sß" reason)) ∧
    subscriptIntersection.agrees Sample.definiteTail Sample.definiteMiddle = true ∧
    (∃ p, Pattern.parse "Sssb" = .ok p ∧ p.text = "Sssb") ∧
    (∃ c, Connector.parse "Sssb+" = .ok c ∧ c.body = "Sssb") ∧
    ∃ l, Sample.link 0 1 (.label "Sssb") = .ok l := by
  obtain ⟨halike, hlabels⟩ := labels_recognised_alike
  have htrimmed : Text.IsTrimmed "Ss*b".toList := Text.trimChars_eq_self_iff.mp (by decide +kernel)
  have hsharp : Text.IsTrimmed "Sß".toList := Text.trimChars_eq_self_iff.mp (by decide +kernel)
  obtain ⟨hconnector, hlink, -⟩ := halike "Ss*b" htrimmed
  obtain ⟨-, -, hrefused⟩ := halike "Sß" hsharp
  have hpattern : ∃ p, Pattern.parse "Ss*b" = .ok p :=
    ⟨Sample.definiteTail.pattern, Pattern.parse_text Sample.definiteTail.pattern⟩
  have hnone : ¬∃ p, Pattern.parse "Sß" = .ok p := by
    rintro ⟨p, hp⟩
    have herror : Pattern.parse "Sß" = .error ⟨"Sß", .subtypeChar 'ß'⟩ := by decide +kernel
    rw [hp] at herror
    cases herror
  have hagree : subscriptIntersection.agrees Sample.definiteTail Sample.definiteMiddle = true := by
    decide +kernel
  have hlabel : subscriptIntersection.label Sample.definiteTail Sample.definiteMiddle = "Sssb" := by
    decide +kernel
  obtain ⟨hp, hc, hl⟩ := hlabel ▸ hlabels Sample.definiteTail Sample.definiteMiddle hagree
  exact ⟨htrimmed, hpattern, hconnector.mp hpattern, (hlink 0 1 (by decide)).mp hpattern, hsharp,
    hnone, not_not.mp (mt (hrefused 1 0).mpr hnone), hagree, hp, hc, hl 0 1 (by decide)⟩

end LabelRule

end LinkParse
