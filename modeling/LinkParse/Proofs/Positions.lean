import LinkParse.Proofs.Matching

/-!
# Patterns by positions

`Pattern.accepts` takes both sides apart byte by byte. Here the comparison is
said by positions instead: the label begins with the pattern's capitals and
no others, and at each further position of the pattern there is the wildcard,
or the label has the same byte there (`Pattern.accepts_iff_positions`).

`Pattern.acceptsByPosition` compares with one position that goes along both
sides. What holds at every position that it comes to is that the rests from
there are compared as the whole texts are (`acceptsBytes_drop`), and that the
pattern has not ended before. So the cut behind the tag is always within the
pattern, and the answer is the same (`acceptsByPosition_eq`).
-/

namespace LinkParse

namespace Pattern

open Text

/-- The longest beginning of a text that is all capitals. -/
def leadingCapitals (s : String) : List UInt8 := (bytes s).takeWhile isTagByte

variable {ps ts us : List UInt8} {i j : Nat}

/-! ## The subtype part by positions -/

theorem acceptsSubtypes_iff : acceptsSubtypes ps ts = true ↔
    ∀ (i : Nat) b, ps[i]? = some b → b = wildcardByte ∨ ts[i]? = some b := by
  induction ps generalizing ts with
  | nil => simp [acceptsSubtypes]
  | cons p ps ih =>
      rw [acceptsSubtypes_cons, ih]
      constructor
      · rintro ⟨hhead, htail⟩ i b hb
        cases i with
        | zero =>
            obtain rfl := Option.some.inj hb
            rwa [← List.head?_eq_getElem?]
        | succ i => simpa using htail i b hb
      · intro h
        constructor
        · rw [List.head?_eq_getElem?]
          exact h 0 p rfl
        · intro i b hb
          simpa using h (i + 1) b hb

/-- The comparison from a position on goes through the same positions of both
sides. -/
theorem fitsFrom_eq : fitsFrom i ps ts = acceptsSubtypes ps (ts.drop i) := by
  induction ps generalizing i with
  | nil => rfl
  | cons p ps ih =>
      have hhere : (p == wildcardByte || p == ts[i]?.getD wildcardByte) = true ↔
          p = wildcardByte ∨ (ts.drop i).head? = some p := by
        rw [List.head?_drop]
        cases ts[i]? with
        | none => simp
        | some t => simp [eq_comm (a := t)]
      rw [Bool.eq_iff_iff, acceptsSubtypes_cons, List.tail_drop, ← ih, ← hhere]
      simp [fitsFrom]

/-! ## The position behind the tag -/

/-- One position of the comparison. -/
theorem acceptsBytes_eq : acceptsBytes ps ts =
    if (ps.head?.any isTagByte || ts.head?.any isTagByte) then
      ps.head? == ts.head? && acceptsBytes ps.tail ts.tail
    else acceptsSubtypes ps ts := by
  cases ps with
  | nil => cases ts <;> simp [acceptsBytes, acceptsSubtypes]
  | cons p ps =>
      cases ts with
      | nil => by_cases hp : isTagByte p = true <;> simp [acceptsBytes, hp]
      | cons t ts => rfl

/-- From whichever position the tags are compared, the answer is that about the
rests from there. -/
theorem acceptsBytes_drop (ps ts : List UInt8) (i : Nat) :
    acceptsBytes (ps.drop i) (ts.drop i) =
      (tagEnd? ps ts i).any fun j => acceptsSubtypes (ps.drop j) (ts.drop j) := by
  rw [acceptsBytes_eq]
  simp only [List.head?_drop, List.tail_drop]
  fun_induction tagEnd? ps ts i with
  | case1 i hcapital hsame ih =>
      unfold isTagAt at hcapital
      rw [if_pos hcapital, hsame, beq_self_eq_true, Bool.true_and, acceptsBytes_eq]
      simpa only [List.head?_drop, List.tail_drop] using ih
  | case2 i hcapital hdiffer =>
      unfold isTagAt at hcapital
      simp [hcapital, hdiffer]
  | case3 i hcapital =>
      unfold isTagAt at hcapital
      simp [hcapital]

/-- The tags do not end behind the pattern. -/
theorem tagEnd?_le (hi : i ≤ ps.length) (hj : tagEnd? ps ts i = some j) : j ≤ ps.length := by
  fun_induction tagEnd? ps ts i with
  | case1 i hcapital hsame ih =>
      have htag : isTagAt ps i = true := by simpa [isTagAt, hsame] using hcapital
      exact ih (lt_length_of_isTagAt htag) hj
  | case2 => cases hj
  | case3 =>
      obtain rfl := Option.some.inj hj
      exact hi

variable {p : Pattern} {label other : String}

/-- The cut is within the pattern, and the answer is that of `accepts`. -/
theorem acceptsByPosition_eq (p : Pattern) (label : String) :
    p.acceptsByPosition label = .ok (p.accepts label) := by
  have hdrop := acceptsBytes_drop (bytes p.text) (bytes label) 0
  rw [List.drop_zero, List.drop_zero] at hdrop
  unfold acceptsByPosition accepts
  cases hend : tagEnd? (bytes p.text) (bytes label) 0 with
  | none => rw [hdrop, hend]; simp [hend]
  | some i =>
      have hle := tagEnd?_le (Nat.zero_le _) hend
      rw [hdrop, hend]
      simp [hend, bytesFrom, hle, fitsFrom_eq]

/-! ## Which labels a pattern accepts, by positions -/

theorem drop_eq_dropWhile (ts : List UInt8) {n : Nat} (h : (ts.takeWhile isTagByte).length = n) :
    ts.drop n = ts.dropWhile isTagByte := by
  calc ts.drop n = (ts.takeWhile isTagByte ++ ts.dropWhile isTagByte).drop n := by
        rw [List.takeWhile_append_dropWhile]
    _ = ts.dropWhile isTagByte := List.drop_left' h

theorem accepts_iff_positions : p.accepts label = true ↔
    leadingCapitals label = leadingCapitals p.text ∧
      ∀ i b, (leadingCapitals p.text).length ≤ i → (bytes p.text)[i]? = some b →
        b = wildcardByte ∨ (bytes label)[i]? = some b := by
  unfold accepts leadingCapitals
  rw [acceptsBytes_iff, eq_comm]
  refine and_congr_right fun hsame => ?_
  rw [← drop_eq_dropWhile (bytes p.text) rfl,
    ← drop_eq_dropWhile (bytes label) (congrArg _ hsame), acceptsSubtypes_iff]
  simp only [List.getElem?_drop]
  constructor
  · intro h i b hi hb
    obtain ⟨k, rfl⟩ := Nat.exists_eq_add_of_le hi
    exact h k b hb
  · intro h k b hb
    exact h _ b (Nat.le_add_right _ k) hb

/-- A beginning that is longer than the capitals of one side shows all capitals
of the other. -/
theorem takeWhile_eq_of_take_eq {n : Nat} (h : ts.take n = us.take n)
    (hn : (ts.takeWhile isTagByte).length < n) :
    us.takeWhile isTagByte = ts.takeWhile isTagByte := by
  have htake : (us.takeWhile isTagByte).take n = ts.takeWhile isTagByte := by
    rw [List.take_takeWhile, ← h, ← List.take_takeWhile, List.take_of_length_le hn.le]
  have hlength := congrArg List.length htake
  rw [List.length_take] at hlength
  rw [← htake, List.take_of_length_le (by omega)]

/-- A label that is accepted may be changed behind the length of the pattern.
Only behind a pattern that is all capitals it matters what follows: there the
label's capitals must stay the same. -/
theorem accepts_of_take_eq {n : Nat} (hn : (bytes p.text).length = n)
    (htake : (bytes label).take n = (bytes other).take n)
    (hcapitals : leadingCapitals label = leadingCapitals other ∨
      (leadingCapitals p.text).length < n)
    (h : p.accepts label = true) : p.accepts other = true := by
  rw [accepts_iff_positions] at h ⊢
  obtain ⟨htag, hbytes⟩ := h
  constructor
  · rcases hcapitals with hsame | hlt
    · exact hsame ▸ htag
    · rw [← htag] at hlt
      exact (takeWhile_eq_of_take_eq htake hlt).trans htag
  · intro i b hi hb
    have hlt : i < n := hn ▸ (List.getElem?_eq_some_iff.mp hb).1
    have hsame : (bytes label)[i]? = (bytes other)[i]? := by
      rw [← List.getElem?_take_of_lt hlt, htake, List.getElem?_take_of_lt hlt]
    rw [← hsame]
    exact hbytes i b hi hb

/-- Which labels a pattern accepts is told by the label's leading capitals and
by the further positions of the pattern. Labels that have the same bytes there
and the same capitals are accepted alike whatever follows, and a pattern that
is not all capitals does not even look for further ones. The comparison by
positions gives this answer for every label, without a cut out of range. -/
theorem compares_positions (p : Pattern) :
    (∀ label, p.accepts label = true ↔
      leadingCapitals label = leadingCapitals p.text ∧
        ∀ (i : Nat) b, (leadingCapitals p.text).length ≤ i → (bytes p.text)[i]? = some b →
          b = wildcardByte ∨ (bytes label)[i]? = some b) ∧
    (∀ label other,
      (bytes label).take (bytes p.text).length = (bytes other).take (bytes p.text).length →
      leadingCapitals label = leadingCapitals other ∨ leadingCapitals p.text ≠ bytes p.text →
        p.accepts label = p.accepts other) ∧
    ∀ label, p.acceptsByPosition label = .ok (p.accepts label) := by
  refine ⟨fun label => accepts_iff_positions, fun label other htake hcapitals => ?_,
    p.acceptsByPosition_eq⟩
  have hbeginning : leadingCapitals p.text <+: bytes p.text := List.takeWhile_prefix _
  have hfree : leadingCapitals label = leadingCapitals other ∨
      (leadingCapitals p.text).length < (bytes p.text).length := by
    refine hcapitals.imp_right fun hne => ?_
    exact lt_of_le_of_ne hbeginning.length_le (mt hbeginning.eq_of_length hne)
  rw [Bool.eq_iff_iff]
  constructor
  · exact accepts_of_take_eq rfl htake hfree
  · exact accepts_of_take_eq rfl htake.symm (hfree.imp_left Eq.symm)

/-- Behind `S*b` even a capital is free. A label has no `b` at the third
position if it ends before, or if a letter of two bytes moves the `b` on. -/
theorem compares_positions_surplus : ∃ p, make "S*b" = .ok p ∧ p.accepts "S*bZ" = true ∧
    p.accepts "Ss" = false ∧ p.accepts "Séb" = false ∧
      p.acceptsByPosition "" = .ok (p.accepts "") := by
  obtain ⟨p, hp, htext⟩ : ∃ p, make "S*b" = .ok p ∧ p.text = "S*b" :=
    ⟨(make "S*b").toOption.get (by decide +kernel), by decide +kernel⟩
  obtain ⟨hiff, hsurplus, hposition⟩ := compares_positions p
  rw [htext] at hsurplus
  have hfails : ∀ label, (bytes label)[2]? ≠ some 98 → p.accepts label = false := by
    intro label hthird
    rw [← Bool.not_eq_true, hiff, htext]
    rintro ⟨-, hbytes⟩
    rcases hbytes 2 98 (by decide +kernel) (by decide +kernel) with hwild | hsame
    · exact absurd hwild (by decide)
    · exact hthird hsame
  have hfree : p.accepts "S*bZ" = p.accepts "S*b" :=
    hsurplus "S*bZ" "S*b" (by decide +kernel) (.inr (by decide +kernel))
  refine ⟨p, hp, ?_, hfails "Ss" (by decide +kernel), hfails "Séb" (by decide +kernel),
    hposition ""⟩
  rw [hfree, ← htext]
  exact p.accepts_text

end Pattern

end LinkParse
