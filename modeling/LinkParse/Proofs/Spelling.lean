import LinkParse.Proofs.Matching

/-!
# How connectors are spelled

A text is read without its blank ends, and these are all that is cut off
(`Text.trimChars_eq_iff`). What is left is read as a connector exactly if it is
spelled like one: capitals, subtypes and the sign of a direction, in this order
(`Connector.IsSpelling`).

The two alphabets are disjoint, so a body can be split in one way only
(`Connector.make_split_eq_ok_iff`). The connector that is read from a text is
therefore the one whose own text was left, and no other
(`Connector.parse_eq_ok_iff`); and what is written is read back.
-/

namespace LinkParse

/-! ## Blank ends -/

namespace Text

theorem isBlank_of_isTagChar {c : Char} (h : isTagChar c = true) : isBlank c = false := by
  rw [isTagChar_iff] at h
  simp only [isBlank, blankRanges, List.any_cons, List.any_nil]
  simp
  omega

theorem isBlank_of_isSubtypeChar {c : Char} (h : isSubtypeChar c = true) : isBlank c = false := by
  rcases isSubtypeChar_iff.mp h with h | rfl
  · simp only [isBlank, blankRanges, List.any_cons, List.any_nil]
    simp
    omega
  · decide

/-- Neither the first nor the last character is blank. -/
structure IsTrimmed (cs : List Char) : Prop where
  head : ∀ c ∈ cs.head?, isBlank c = false
  last : ∀ c ∈ cs.getLast?, isBlank c = false

variable {cs ds : List Char}

theorem dropWhile_isBlank_eq_self (h : ∀ c ∈ cs.head?, isBlank c = false) :
    cs.dropWhile isBlank = cs := by
  cases cs with
  | nil => rfl
  | cons c cs => exact List.dropWhile_cons_of_neg (by rw [h c rfl]; exact Bool.false_ne_true)

theorem isBlank_head?_dropWhile (cs : List Char) :
    ∀ c ∈ (cs.dropWhile isBlank).head?, isBlank c = false := by
  intro c hc
  have hhead := List.head?_dropWhile_not isBlank cs
  rw [Option.mem_def.mp hc] at hhead
  exact hhead

/-- What trimming leaves, with the blanks that it cuts off at the end. -/
theorem exists_trimChars_append (cs : List Char) : ∃ behind,
    cs.dropWhile isBlank = trimChars cs ++ behind ∧ ∀ c ∈ behind, isBlank c = true := by
  refine ⟨((cs.dropWhile isBlank).reverse.takeWhile isBlank).reverse, ?_, fun c hc => ?_⟩
  · rw [trimChars, ← List.reverse_append, List.takeWhile_append_dropWhile, List.reverse_reverse]
  · exact List.mem_takeWhile_imp (List.mem_reverse.mp hc)

theorem isTrimmed_trimChars (cs : List Char) : IsTrimmed (trimChars cs) where
  head c hc := by
    obtain ⟨behind, hbehind, -⟩ := exists_trimChars_append cs
    refine isBlank_head?_dropWhile cs c ?_
    rw [hbehind, List.head?_append, Option.mem_def.mp hc]
    rfl
  last c hc := by
    rw [trimChars, List.getLast?_reverse] at hc
    exact isBlank_head?_dropWhile _ c hc

theorem IsTrimmed.trimChars_append {before behind : List Char} (h : IsTrimmed ds)
    (hbefore : ∀ c ∈ before, isBlank c = true) (hbehind : ∀ c ∈ behind, isBlank c = true) :
    trimChars (before ++ ds ++ behind) = ds := by
  rw [trimChars, List.append_assoc, List.dropWhile_append_of_pos hbefore]
  cases ds with
  | nil => rw [List.nil_append, List.dropWhile_eq_nil_iff.mpr hbehind]; rfl
  | cons d ds =>
      have hhead : ∀ c ∈ (d :: ds ++ behind).head?, isBlank c = false := h.head
      have hlast : ∀ c ∈ (d :: ds).reverse.head?, isBlank c = false := by
        rw [List.head?_reverse]
        exact h.last
      rw [dropWhile_isBlank_eq_self hhead, List.reverse_append,
        List.dropWhile_append_of_pos fun c hc => hbehind c (List.mem_reverse.mp hc),
        dropWhile_isBlank_eq_self hlast, List.reverse_reverse]

/-- What is left of a text has no blank ends, and only blanks were cut off. -/
theorem trimChars_eq_iff : trimChars cs = ds ↔ IsTrimmed ds ∧ ∃ before behind,
    cs = before ++ ds ++ behind ∧ (∀ c ∈ before, isBlank c = true) ∧
      ∀ c ∈ behind, isBlank c = true := by
  constructor
  · rintro rfl
    obtain ⟨behind, hsplit, hbehind⟩ := exists_trimChars_append cs
    refine ⟨isTrimmed_trimChars cs, cs.takeWhile isBlank, behind, ?_,
      fun c hc => List.mem_takeWhile_imp hc, hbehind⟩
    rw [List.append_assoc, ← hsplit, List.takeWhile_append_dropWhile]
  · rintro ⟨htrimmed, before, behind, rfl, hbefore, hbehind⟩
    exact htrimmed.trimChars_append hbefore hbehind

theorem trimChars_eq_self_iff : trimChars cs = cs ↔ IsTrimmed cs := by
  rw [trimChars_eq_iff]
  exact ⟨And.left, fun h => ⟨h, [], [], by simp⟩⟩

/-- What does not end in a blank is kept exactly if it does not begin with one. -/
theorem trimChars_eq_self_iff_head (hlast : ∀ c ∈ cs.getLast?, isBlank c = false) :
    trimChars cs = cs ↔ ∀ c ∈ cs.head?, isBlank c = false :=
  trimChars_eq_self_iff.trans ⟨IsTrimmed.head, fun hhead => ⟨hhead, hlast⟩⟩

theorem trimChars_subset (cs : List Char) : trimChars cs ⊆ cs := by
  obtain ⟨-, before, behind, hcs, -⟩ := trimChars_eq_iff.mp (rfl : trimChars cs = trimChars cs)
  intro c hc
  rw [hcs]
  exact List.mem_append_left _ (List.mem_append_right _ hc)

/-- A character that is not blank stays. -/
theorem trimChars_ne_nil {c : Char} (hmem : c ∈ cs) (hc : isBlank c = false) :
    trimChars cs ≠ [] := by
  obtain ⟨-, before, behind, hcs, hbefore, hbehind⟩ :=
    trimChars_eq_iff.mp (rfl : trimChars cs = trimChars cs)
  intro hnil
  rw [hcs, hnil, List.append_nil, List.mem_append] at hmem
  have hblank := hmem.elim (hbefore c) (hbehind c)
  rw [hc] at hblank
  cases hblank

theorem isTrimmed_of_forall (h : ∀ c ∈ cs, isBlank c = false) : IsTrimmed cs :=
  ⟨fun c hc => h c (List.mem_of_head? hc), fun c hc => h c (List.mem_of_getLast? hc)⟩

theorem IsTrimmed.concat (h : IsTrimmed cs) {c : Char} (hc : isBlank c = false) :
    IsTrimmed (cs ++ [c]) where
  head := by
    cases cs with
    | nil =>
        rintro _ ⟨⟩
        exact hc
    | cons x xs => exact h.head
  last := by
    rw [List.getLast?_concat]
    rintro _ ⟨⟩
    exact hc

theorem trimChars_eq_self (h : ∀ c ∈ cs, isBlank c = false) : trimChars cs = cs :=
  trimChars_eq_self_iff.mpr (isTrimmed_of_forall h)

end Text

theorem Direction.suffix_inj {d e : Direction} : d.suffix = e.suffix ↔ d = e := by
  cases d <;> cases e <;> decide

theorem Direction.isBlank_suffix (d : Direction) : Text.isBlank d.suffix = false := by
  cases d <;> decide

namespace Connector

variable {c : Connector} {d : Direction} {cs : List Char} {s : String}

/-! ## Tags and subtypes -/

/-- A tag and subtypes that a connector can have. -/
structure AreParts (tag subtypes : List Char) : Prop where
  tag_ne_nil : tag ≠ []
  tag_letters : ∀ c ∈ tag, isTagChar c = true
  subtype_letters : ∀ c ∈ subtypes, isSubtypeChar c = true

theorem areParts (c : Connector) : AreParts c.tag.toList c.subtypes :=
  ⟨c.tag_ne_nil, c.tag_letters, c.subtype_letters⟩

theorem AreParts.exists_connector {tag subtypes : List Char} (h : AreParts tag subtypes)
    (d : Direction) :
    ∃ c : Connector, c.tag.toList = tag ∧ c.subtypes = subtypes ∧ c.direction = d := by
  have htag : (String.ofList tag).toList = tag := String.toList_ofList
  exact ⟨⟨String.ofList tag, subtypes, d, htag.symm ▸ h.tag_ne_nil, htag.symm ▸ h.tag_letters,
    h.subtype_letters⟩, htag, rfl, rfl⟩

/-- What is made of parts has just these. -/
theorem make_eq_ok_iff {tag subtypes : String} : make tag subtypes d = .ok c ↔
    c.tag = tag ∧ c.subtypes = subtypes.toList ∧ c.direction = d := by
  constructor
  · intro h
    unfold make at h
    split at h
    · cases h
    · split at h
      · cases h
      · split at h
        · cases h
        · cases h
          exact ⟨rfl, rfl, rfl⟩
  · rintro ⟨rfl, hsubtypes, rfl⟩
    unfold make
    rw [dif_neg c.tag_ne_nil]
    split
    · next x hx =>
      have hwrong := List.find?_some hx
      rw [c.tag_letters x (List.mem_of_find?_eq_some hx)] at hwrong
      cases hwrong
    · split
      · next x hx =>
        have hwrong := List.find?_some hx
        rw [c.subtype_letters x (hsubtypes ▸ List.mem_of_find?_eq_some hx)] at hwrong
        cases hwrong
      · simp only [← hsubtypes]

theorem exists_make_iff {tag subtypes : String} :
    (∃ c, make tag subtypes d = .ok c) ↔ AreParts tag.toList subtypes.toList := by
  constructor
  · rintro ⟨c, hc⟩
    obtain ⟨rfl, hsubtypes, -⟩ := make_eq_ok_iff.mp hc
    exact hsubtypes ▸ c.areParts
  · intro h
    obtain ⟨c, htag, hsubtypes, hd⟩ := h.exists_connector d
    exact ⟨c, make_eq_ok_iff.mpr ⟨String.toList_inj.mp htag, hsubtypes, hd⟩⟩

/-! ## Bodies -/

/-- Some tag with some subtypes behind it. -/
def IsBody (cs : List Char) : Prop := ∃ tag subtypes, AreParts tag subtypes ∧ cs = tag ++ subtypes

/-- Bodies are what the bodies of connectors spell, whatever their direction. -/
theorem exists_body_eq_iff (d : Direction) :
    (∃ c : Connector, c.body = s ∧ c.direction = d) ↔ IsBody s.toList := by
  constructor
  · rintro ⟨c, rfl, -⟩
    exact ⟨_, _, c.areParts, c.toList_body⟩
  · rintro ⟨tag, subtypes, hparts, hs⟩
    obtain ⟨c, rfl, rfl, hd⟩ := hparts.exists_connector d
    exact ⟨c, String.toList_inj.mp (c.toList_body.trans hs.symm), hd⟩

/-- The capitals at the start are the tag, and a connector is made exactly if
what follows them are subtypes. -/
theorem make_split_eq_ok_iff :
    make (String.ofList (cs.takeWhile isTagChar)) (String.ofList (cs.dropWhile isTagChar)) d = .ok c
      ↔ c.body.toList = cs ∧ c.direction = d := by
  rw [make_eq_ok_iff, String.toList_ofList]
  constructor
  · rintro ⟨htag, hsubtypes, hd⟩
    rw [toList_body, htag, hsubtypes, String.toList_ofList, List.takeWhile_append_dropWhile]
    exact ⟨rfl, hd⟩
  · rintro ⟨rfl, hd⟩
    rw [takeWhile_body, dropWhile_body, String.ofList_toList]
    exact ⟨rfl, rfl, hd⟩

theorem isBlank_of_mem_body {x : Char} (h : x ∈ c.body.toList) : Text.isBlank x = false := by
  rw [toList_body, List.mem_append] at h
  rcases h with h | h
  · exact Text.isBlank_of_isTagChar (c.tag_letters x h)
  · exact Text.isBlank_of_isSubtypeChar (c.subtype_letters x h)

theorem isTrimmed_body (c : Connector) : Text.IsTrimmed c.body.toList :=
  Text.isTrimmed_of_forall fun _ => isBlank_of_mem_body

/-! ## Texts -/

/-- A body with the sign of a direction behind it. -/
def IsSpelling (cs : List Char) : Prop :=
  ∃ tag subtypes sign, AreParts tag subtypes ∧ (sign = '+' ∨ sign = '-') ∧
    cs = tag ++ subtypes ++ [sign]

theorem toList_text (c : Connector) : c.text.toList = c.body.toList ++ [c.direction.suffix] :=
  String.toList_push _

theorem isSpelling_iff : IsSpelling cs ↔ ∃ c : Connector, c.text.toList = cs := by
  constructor
  · rintro ⟨tag, subtypes, sign, hparts, hsign, rfl⟩
    obtain ⟨d, rfl⟩ : ∃ d : Direction, d.suffix = sign := by
      rcases hsign with rfl | rfl
      · exact ⟨.right, rfl⟩
      · exact ⟨.left, rfl⟩
    obtain ⟨c, rfl, rfl, rfl⟩ := hparts.exists_connector d
    exact ⟨c, by rw [toList_text, toList_body]⟩
  · rintro ⟨c, rfl⟩
    refine ⟨_, _, c.direction.suffix, c.areParts, ?_, by rw [toList_text, toList_body]⟩
    cases c.direction with
    | left => exact .inr rfl
    | right => exact .inl rfl

/-- The connector that is read is the one whose text is there between the
blank ends. -/
theorem parse_eq_ok_iff : parse s = .ok c ↔ c.text = Text.trim s := by
  rw [← String.toList_inj, Text.toList_trim, toList_text, parse]
  generalize Text.trimChars s.toList = cs
  dsimp only
  split
  · next hnone =>
    refine iff_of_false nofun fun h => ?_
    rw [← h, List.getLast?_concat, Option.bind_some,
      Direction.ofSuffix?_eq_some_iff.mpr rfl] at hnone
    cases hnone
  · next d hsome =>
    obtain ⟨sign, hsign, hd⟩ := Option.bind_eq_some_iff.mp hsome
    obtain rfl := Direction.ofSuffix?_eq_some_iff.mp hd
    obtain ⟨body, rfl⟩ := List.getLast?_eq_some_iff.mp hsign
    rw [List.dropLast_concat, make_split_eq_ok_iff, List.append_singleton_inj,
      Direction.suffix_inj]

theorem trim_text (c : Connector) : Text.trim c.text = c.text := by
  rw [← String.toList_inj, Text.toList_trim]
  refine Text.trimChars_eq_self fun x hx => ?_
  rw [toList_text, List.mem_append, List.mem_singleton] at hx
  rcases hx with hx | rfl
  · exact isBlank_of_mem_body hx
  · exact c.direction.isBlank_suffix

theorem parse_text (c : Connector) : parse c.text = .ok c := parse_eq_ok_iff.mpr c.trim_text.symm

/-- A text is read as a connector exactly if it is spelled like one between
its blank ends, and then the connector's text is what stands there. A connector
is made of parts exactly if they are a tag and subtypes, and has these. Every
connector is read back from its text. -/
theorem reads_spellings :
    (∀ s, ((∃ c, parse s = .ok c) ↔ IsSpelling (Text.trim s).toList) ∧
      ∀ c, parse s = .ok c ↔ c.text = Text.trim s) ∧
    (∀ tag subtypes d, ((∃ c, make tag subtypes d = .ok c) ↔
        AreParts tag.toList subtypes.toList) ∧
      ∀ c, make tag subtypes d = .ok c ↔
        c.tag = tag ∧ c.subtypes = subtypes.toList ∧ c.direction = d) ∧
    ∀ c, parse c.text = .ok c := by
  refine ⟨fun s => ⟨?_, fun c => parse_eq_ok_iff⟩,
    fun tag subtypes d => ⟨exists_make_iff, fun c => make_eq_ok_iff⟩, parse_text⟩
  rw [isSpelling_iff]
  exact exists_congr fun c => parse_eq_ok_iff.trans String.toList_inj.symm

/-- A sign too many is no subtype, and a blank inside is no blank end. -/
example : parse "\u3000Ss*b+ " = parse "Ss*b+" ∧
    parse "Ss*b++" = .error ⟨"Ss*b++", .subtypeChar '+'⟩ ∧
    parse "S s+" = .error ⟨"S s+", .subtypeChar ' '⟩ := by
  decide +kernel

end Connector

end LinkParse
