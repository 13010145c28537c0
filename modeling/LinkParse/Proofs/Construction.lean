import LinkParse.Proofs.Lists
import LinkParse.Sample
import Mathlib.Data.Finset.Card
import Mathlib.Data.Nat.Find
import Mathlib.Order.Bounds.Basic

/-!
# Which parts make a linkage

A linkage is made of any parts that a linkage can have, and has just these
(`Linkage.make_eq_ok_iff`). What is refused is known from the parts alone
(`Linkage.IsReported`): a cost that is not finite comes first, and then the first
link at fault, which leaves the sentence or joins two words by other connectors
than a link before it.

A link is compared only with the first one between its words, not with all
before it. At the first link at fault this is the same, since those before it
agree with each other (`Linkage.isLeast_isAtFault_iff`).

Null words are counted by flags and listed by a search. Both leave out the
words at the ends of links (`Linkage.nullCount_eq`, `Linkage.length_nullWords_add`).
-/

namespace LinkParse

/-! ## Sentences to try -/

namespace Sample

/-- A link between words 0 and 1, one between 1 and 3, and a second one between
0 and 1. -/
def twice (label : String) : List Link :=
  ([(0, 1, "Ss"), (1, 3, "Os"), (0, 1, label)] : List (Nat × Nat × String)).filterMap fun p =>
    (link p.1 p.2.1 (.label p.2.2)).toOption

end Sample

/-! ## Links -/

namespace Link

/-- The words that a link joins. -/
def ends (l : Link) : Nat × Nat := (l.left, l.right)

def connectors (l : Link) : Connector × Connector := (l.leftConnector, l.rightConnector)

variable {l m : Link} {w : Nat}

theorem touches_iff : l.touches w = true ↔ l.left = w ∨ l.right = w := by
  unfold touches
  rw [Bool.or_eq_true, beq_iff_eq, beq_iff_eq]

theorem joinsSameWords_iff : m.joinsSameWords l = true ↔ m.ends = l.ends := by
  unfold joinsSameWords ends
  rw [Bool.and_eq_true, beq_iff_eq, beq_iff_eq, Prod.mk.injEq]

theorem sameConnectors_iff : m.sameConnectors l = true ↔ m.connectors = l.connectors := by
  unfold sameConnectors connectors
  rw [Bool.and_eq_true, beq_iff_eq, beq_iff_eq, Prod.mk.injEq]

end Link

namespace Linkage

variable {words : Nat} {links : List Link} {cost : Binary64} {k : Linkage} {l m : Link} {i j : Nat}
  {fault : Fault}

/-! ## Parts -/

/-- Words, links and a cost that a linkage can have. -/
structure AreParts (words : Nat) (links : List Link) (cost : Binary64) : Prop where
  cost_finite : cost.isFinite = true
  right_lt_words : ∀ l ∈ links, l.right < words
  connectors_eq : ∀ l ∈ links, ∀ m ∈ links, l.ends = m.ends → l.connectors = m.connectors

theorem areParts (k : Linkage) : AreParts k.words k.links k.cost where
  cost_finite := k.cost_finite
  right_lt_words := k.right_lt_words
  connectors_eq l hl m hm hends := Link.sameConnectors_iff.mp
    (k.connectors_agree l hl m hm (Link.joinsSameWords_iff.mpr hends))

theorem AreParts.exists_linkage (h : AreParts words links cost) :
    ∃ k : Linkage, k.words = words ∧ k.links = links ∧ k.cost = cost :=
  ⟨⟨words, links, cost, h.cost_finite, h.right_lt_words, fun l hl m hm hends =>
    Link.sameConnectors_iff.mpr (h.connectors_eq l hl m hm (Link.joinsSameWords_iff.mp hends))⟩,
    rfl, rfl, rfl⟩

/-- What every linkage satisfies is what is checked when one is made. -/
theorem linkFault?_eq_none_of_mem (hl : l ∈ k.links) (i : Nat) :
    linkFault? k.words k.links l i = none := by
  unfold linkFault?
  rw [if_neg (Nat.not_le.mpr (k.right_lt_words l hl))]
  split
  · rfl
  · rename_i other earlier hfound
    have hother : other ∈ k.links := List.fst_mem_of_mem_zipIdx (List.mem_of_find?_eq_some hfound)
    have hjoins : other.joinsSameWords l = true := by simpa using List.find?_some hfound
    rw [if_pos (k.connectors_agree other hother l hl hjoins)]

theorem firstFault?_eq_none (k : Linkage) : firstFault? k.words k.links = none := by
  unfold firstFault?
  rw [List.findSome?_eq_none_iff]
  rintro ⟨l, i⟩ hmem
  exact linkFault?_eq_none_of_mem (List.fst_mem_of_mem_zipIdx hmem) i

theorem make_parts (k : Linkage) : make k.words k.links k.cost = .ok k := by
  unfold make
  rw [dif_pos k.cost_finite]
  split
  · rename_i fault hfault
    rw [k.firstFault?_eq_none] at hfault
    cases hfault
  · rfl

/-- What is made of parts has just these. -/
theorem make_eq_ok_iff : make words links cost = .ok k ↔
    k.words = words ∧ k.links = links ∧ k.cost = cost := by
  constructor
  · intro h
    unfold make at h
    split at h
    · split at h
      · cases h
      · cases h
        exact ⟨rfl, rfl, rfl⟩
    · cases h
  · rintro ⟨rfl, rfl, rfl⟩
    exact k.make_parts

theorem links_of_make (h : make words links cost = .ok k) : k.links = links :=
  (make_eq_ok_iff.mp h).2.1

theorem exists_make_iff : (∃ k, make words links cost = .ok k) ↔ AreParts words links cost := by
  simp only [make_eq_ok_iff]
  constructor
  · rintro ⟨k, rfl, rfl, rfl⟩
    exact k.areParts
  · exact AreParts.exists_linkage

/-! ## Faults of links -/

/-- Link `i` leaves the sentence, or a link before it joins its words by other
connectors. -/
def IsAtFault (words : Nat) (links : List Link) (i : Nat) : Prop :=
  ∃ l, links[i]? = some l ∧ (words ≤ l.right ∨
    ∃ j < i, ∃ m, links[j]? = some m ∧ m.ends = l.ends ∧ m.connectors ≠ l.connectors)

/-- Link `j` is the first of those that join the words of a link. -/
def IsFirstBetween (links : List Link) (l : Link) (j : Nat) : Prop :=
  IsLeast {j | ∃ m : Link, links[j]? = some m ∧ m.ends = l.ends} j

theorem exists_isFirstBetween (hl : links[i]? = some l) :
    ∃ j m, links[j]? = some m ∧ m.ends = l.ends ∧ IsFirstBetween links l j := by
  have hsome : ∃ j, ∃ m : Link, links[j]? = some m ∧ m.ends = l.ends := ⟨i, l, hl, rfl⟩
  obtain ⟨m, hm, hends⟩ := Nat.find_spec hsome
  exact ⟨Nat.find hsome, m, hm, hends, ⟨m, hm, hends⟩, fun _ hj => Nat.find_min' hsome hj⟩

theorem IsFirstBetween.congr (hj : IsFirstBetween links l j) (hends : m.ends = l.ends) :
    IsFirstBetween links m j := by
  unfold IsFirstBetween
  rw [hends]
  exact hj

theorem find?_joinsSameWords (hm : links[j]? = some m) (hj : IsFirstBetween links l j) :
    (links.zipIdx.find? fun p => p.1.joinsSameWords l) = some (m, j) := by
  obtain ⟨⟨m', hm', hends⟩, hleast⟩ := hj
  obtain rfl : m = m' := Option.some.inj (hm.symm.trans hm')
  refine find?_zipIdx_eq_some (p := (·.joinsSameWords l)) hm (Link.joinsSameWords_iff.mpr hends)
    fun i hi n hn => ?_
  rw [Bool.eq_false_iff, ne_eq, Link.joinsSameWords_iff]
  intro hsame
  exact Nat.not_le.mpr hi (hleast ⟨n, hn, hsame⟩)

/-- What is found wrong with a link. -/
theorem linkFault?_eq (hm : links[j]? = some m) (hj : IsFirstBetween links l j) :
    linkFault? words links l i = if words ≤ l.right then some (.outside i l.left l.right words)
      else if m.connectors = l.connectors then none else some (.conflict j i l.left l.right) := by
  have hfirst := find?_joinsSameWords hm hj
  simp only [← Link.sameConnectors_iff]
  unfold linkFault?
  split
  · rfl
  · split
    · next hnone => cases hnone.symm.trans hfirst
    · next other earlier hfound =>
      cases hfound.symm.trans hfirst
      rfl

/-- What is found is a fault. -/
theorem isAtFault_of_linkFault? (hl : links[i]? = some l)
    (hfault : linkFault? words links l i = some fault) : IsAtFault words links i := by
  obtain ⟨j, m, hm, hends, hj⟩ := exists_isFirstBetween hl
  rw [linkFault?_eq hm hj] at hfault
  refine ⟨l, hl, ?_⟩
  by_cases hright : words ≤ l.right
  · exact .inl hright
  · rw [if_neg hright] at hfault
    have hne : m.connectors ≠ l.connectors := fun hsame => by
      rw [if_pos hsame] at hfault
      cases hfault
    have hle : j ≤ i := hj.2 ⟨l, hl, rfl⟩
    have hji : j ≠ i := by
      rintro rfl
      exact hne (congrArg Link.connectors (Option.some.inj (hm.symm.trans hl)))
    exact .inr ⟨j, Nat.lt_of_le_of_ne hle hji, m, hm, hends, hne⟩

/-- Where a link is at fault, something is found wrong with it or with one
before it: if its connectors are those of the first link between its words, then
those of the link that they differ from are not. -/
theorem IsAtFault.exists_linkFault? (h : IsAtFault words links i) :
    ∃ j ≤ i, ∃ m fault, links[j]? = some m ∧ linkFault? words links m j = some fault := by
  obtain ⟨l, hl, hwrong⟩ := h
  obtain ⟨first, f, hf, hfends, hfirst⟩ := exists_isFirstBetween hl
  by_cases hfound : ∃ fault, linkFault? words links l i = some fault
  · obtain ⟨fault, hfault⟩ := hfound
    exact ⟨i, Nat.le_refl i, l, fault, hl, hfault⟩
  · rw [linkFault?_eq hf hfirst] at hfound
    by_cases hright : words ≤ l.right
    · exact absurd ⟨_, if_pos hright⟩ hfound
    · rw [if_neg hright] at hfound
      have hsame : f.connectors = l.connectors := by
        by_contra hne
        exact hfound ⟨_, if_neg hne⟩
      obtain ⟨j, hj, m, hm, hends, hne⟩ := hwrong.resolve_left hright
      refine ⟨j, hj.le, m, .conflict first j m.left m.right, hm, ?_⟩
      have hmright : ¬words ≤ m.right := by
        rw [show m.right = l.right from congrArg Prod.snd hends]
        exact hright
      rw [linkFault?_eq hf (hfirst.congr hends), if_neg hmright,
        if_neg fun heq => hne (heq.symm.trans hsame)]

/-- So the first link at fault is the first with which something is found
wrong. -/
theorem isLeast_isAtFault_iff : IsLeast {i | IsAtFault words links i} i ↔
    (∃ l fault, links[i]? = some l ∧ linkFault? words links l i = some fault) ∧
      ∀ j < i, ∀ m, links[j]? = some m → linkFault? words links m j = none := by
  constructor
  · rintro ⟨hi, hleast⟩
    have hbefore : ∀ j < i, ∀ m, links[j]? = some m → linkFault? words links m j = none := by
      intro j hj m hm
      cases hfault : linkFault? words links m j with
      | none => rfl
      | some fault =>
          exact absurd (hleast (isAtFault_of_linkFault? hm hfault)) (Nat.not_le.mpr hj)
    obtain ⟨j, hj, l, fault, hl, hfault⟩ := hi.exists_linkFault?
    obtain rfl : j = i := Nat.le_antisymm hj (hleast (isAtFault_of_linkFault? hl hfault))
    exact ⟨⟨l, fault, hl, hfault⟩, hbefore⟩
  · rintro ⟨⟨l, fault, hl, hfault⟩, hbefore⟩
    refine ⟨isAtFault_of_linkFault? hl hfault, fun j hj => ?_⟩
    obtain ⟨n, hn, m, fault', hm, hfault'⟩ := hj.exists_linkFault?
    by_contra hlt
    rw [hbefore n (by omega) m hm] at hfault'
    cases hfault'

theorem firstFault?_eq_some_iff : firstFault? words links = some fault ↔
    ∃ i l, IsLeast {i | IsAtFault words links i} i ∧ links[i]? = some l ∧
      linkFault? words links l i = some fault := by
  have hfirst : firstFault? words links = some fault ↔
      ∃ i l, links[i]? = some l ∧ linkFault? words links l i = some fault ∧
        ∀ j < i, ∀ m, links[j]? = some m → linkFault? words links m j = none :=
    findSome?_zipIdx_eq_some_iff (f := linkFault? words links)
  rw [hfirst]
  constructor
  · rintro ⟨i, l, hl, hfault, hbefore⟩
    exact ⟨i, l, isLeast_isAtFault_iff.mpr ⟨⟨l, fault, hl, hfault⟩, hbefore⟩, hl, hfault⟩
  · rintro ⟨i, l, hleast, hl, hfault⟩
    exact ⟨i, l, hl, hfault, (isLeast_isAtFault_iff.mp hleast).2⟩

/-! ## Reports -/

/-- What is reported of parts that make no linkage. -/
inductive IsReported (words : Nat) (links : List Link) (cost : Binary64) : Fault → Prop where
  | cost (hcost : cost.isFinite = false) : IsReported words links cost (.cost cost)
  | outside {i : Nat} {l : Link} (hcost : cost.isFinite = true)
      (hleast : IsLeast {i | IsAtFault words links i} i) (hl : links[i]? = some l)
      (hright : words ≤ l.right) : IsReported words links cost (.outside i l.left l.right words)
  | conflict {i j : Nat} {l : Link} (hcost : cost.isFinite = true)
      (hleast : IsLeast {i | IsAtFault words links i} i) (hl : links[i]? = some l)
      (hright : l.right < words) (hj : IsFirstBetween links l j) :
      IsReported words links cost (.conflict j i l.left l.right)

theorem isReported_of_firstFault? (hcost : cost.isFinite = true)
    (h : firstFault? words links = some fault) : IsReported words links cost fault := by
  obtain ⟨i, l, hleast, hl, hfault⟩ := firstFault?_eq_some_iff.mp h
  obtain ⟨j, m, hm, -, hj⟩ := exists_isFirstBetween hl
  rw [linkFault?_eq hm hj] at hfault
  split at hfault
  · next hright =>
    cases hfault
    exact .outside hcost hleast hl hright
  · next hright =>
    split at hfault
    · cases hfault
    · cases hfault
      exact .conflict hcost hleast hl (Nat.not_le.mp hright) hj

theorem make_eq_error_of_firstFault? (hcost : cost.isFinite = true)
    (h : firstFault? words links = some fault) : make words links cost = .error fault := by
  unfold make
  rw [dif_pos hcost]
  split
  · next other hother => rw [Option.some.inj (hother.symm.trans h)]
  · next hnone => cases hnone.symm.trans h

theorem firstFault?_of_make_eq_error (hcost : cost.isFinite = true)
    (h : make words links cost = .error fault) : firstFault? words links = some fault := by
  unfold make at h
  rw [dif_pos hcost] at h
  split at h
  · next hother =>
    cases h
    exact hother
  · cases h

/-- A link at fault that stays within the sentence is not the first between its
words, and has other connectors than that one. -/
theorem linkFault?_eq_conflict (hleast : IsLeast {i | IsAtFault words links i} i)
    (hl : links[i]? = some l) (hright : l.right < words) (hj : IsFirstBetween links l j) :
    linkFault? words links l i = some (.conflict j i l.left l.right) := by
  obtain ⟨⟨l', fault, hl', hfault⟩, -⟩ := isLeast_isAtFault_iff.mp hleast
  obtain rfl : l = l' := Option.some.inj (hl.symm.trans hl')
  obtain ⟨m, hm, -⟩ := hj.1
  rw [linkFault?_eq hm hj, if_neg (Nat.not_le.mpr hright)] at hfault ⊢
  split at hfault
  · cases hfault
  · next hne => rw [if_neg hne]

theorem make_eq_error_iff :
    make words links cost = .error fault ↔ IsReported words links cost fault := by
  constructor
  · intro h
    by_cases hcost : cost.isFinite = true
    · exact isReported_of_firstFault? hcost (firstFault?_of_make_eq_error hcost h)
    · unfold make at h
      rw [dif_neg hcost] at h
      cases h
      exact .cost (Bool.eq_false_iff.mpr hcost)
  · intro h
    cases h with
    | cost hcost =>
        unfold make
        rw [dif_neg (Bool.eq_false_iff.mp hcost)]
    | outside hcost hleast hl hright =>
        obtain ⟨j, m, hm, -, hj⟩ := exists_isFirstBetween hl
        refine make_eq_error_of_firstFault? hcost (firstFault?_eq_some_iff.mpr
          ⟨_, _, hleast, hl, ?_⟩)
        rw [linkFault?_eq hm hj, if_pos hright]
    | conflict hcost hleast hl hright hj =>
        exact make_eq_error_of_firstFault? hcost (firstFault?_eq_some_iff.mpr
          ⟨_, _, hleast, hl, linkFault?_eq_conflict hleast hl hright hj⟩)

/-! ## Null words -/

theorem getElem?_set_true {flags : List Bool} {v w : Nat} :
    (flags.set v true)[w]? = flags[w]?.map (· || v == w) := by
  rw [List.getElem?_set']
  by_cases hvw : v = w
  · subst hvw
    rw [if_pos rfl]
    cases flags[v]? <;> simp
  · rw [if_neg hvw, beq_eq_false_iff_ne.mpr hvw]
    cases flags[w]? <;> simp

/-- A flag is set at the end of a link and stays set. -/
theorem getElem?_foldl_flags : ∀ (links : List Link) (flags : List Bool) (w : Nat),
    (links.foldl (fun flags l => (flags.set l.left true).set l.right true) flags)[w]?
      = flags[w]?.map (· || links.any (·.touches w))
  | [], flags, w => by simp
  | l :: links, flags, w => by
      have hstep : ((flags.set l.left true).set l.right true)[w]?
          = flags[w]?.map (· || l.touches w) := by
        rw [getElem?_set_true, getElem?_set_true, Option.map_map]
        congr 1
        funext flag
        exact Bool.or_assoc ..
      rw [List.foldl_cons, getElem?_foldl_flags links, hstep, Option.map_map, List.any_cons]
      congr 1
      funext flag
      exact Bool.or_assoc ..

theorem linkedFlags_eq (k : Linkage) :
    k.linkedFlags = (List.range k.words).map fun w => k.links.any (·.touches w) := by
  refine List.ext_getElem? fun w => ?_
  rw [linkedFlags, getElem?_foldl_flags, List.getElem?_map, List.getElem?_replicate]
  by_cases hw : w < k.words
  · rw [if_pos hw, List.getElem?_range hw]
    simp
  · rw [if_neg hw, List.getElem?_eq_none (by simpa using hw)]
    rfl

/-- Counting the null words by flags and listing them come to the same. -/
theorem nullCount_eq (k : Linkage) : k.nullCount = k.nullWords.length := by
  rw [nullCount, linkedFlags_eq, List.count_eq_countP, List.countP_map,
    List.countP_eq_length_filter, nullWords]
  congr 2
  funext w
  simp

/-- The words at which links end, each once. -/
def endWords (links : List Link) : Finset Nat := (links.flatMap fun l => [l.left, l.right]).toFinset

theorem mem_endWords {w : Nat} : w ∈ endWords links ↔ ∃ l ∈ links, l.touches w = true := by
  unfold endWords
  rw [List.mem_toFinset, List.mem_flatMap]
  refine exists_congr fun l => and_congr_right fun _ => ?_
  rw [Link.touches_iff, List.mem_pair, eq_comm (a := w), eq_comm (a := w)]

theorem toFinset_nullWords (k : Linkage) :
    k.nullWords.toFinset = Finset.range k.words \ endWords k.links := by
  ext w
  rw [List.mem_toFinset, nullWords, List.mem_filter, Finset.mem_sdiff, mem_endWords,
    List.mem_range, Finset.mem_range, Bool.not_eq_true', Bool.eq_false_iff, ne_eq, List.any_eq_true]

theorem endWords_subset (k : Linkage) : endWords k.links ⊆ Finset.range k.words := by
  intro w hw
  obtain ⟨l, hl, htouches⟩ := mem_endWords.mp hw
  have hright := k.right_lt_words l hl
  have hleft := l.left_lt_right
  rw [Finset.mem_range]
  rcases Link.touches_iff.mp htouches with rfl | rfl <;> omega

theorem length_nullWords_add (k : Linkage) :
    k.nullWords.length + (endWords k.links).card = k.words := by
  have hnodup : k.nullWords.Nodup := List.nodup_range.filter _
  rw [← List.toFinset_card_of_nodup hnodup, toFinset_nullWords,
    Finset.card_sdiff_add_card_eq_card k.endWords_subset, Finset.card_range]

/-! ## The construction -/

/-- A linkage is made of exactly the parts that a linkage can have. Its null
words are those at which no link ends, however they are counted. For all other
parts it is fixed what is reported. -/
theorem make_checks_parts (words : Nat) (links : List Link) (cost : Binary64) :
    ((∃ k, make words links cost = .ok k) ↔ AreParts words links cost) ∧
      (∀ k, make words links cost = .ok k →
        k.words = words ∧ k.links = links ∧ k.cost = cost ∧
          k.nullCount = k.nullWords.length ∧ k.nullCount + (endWords links).card = words) ∧
      ∀ fault, make words links cost = .error fault ↔ IsReported words links cost fault := by
  refine ⟨exists_make_iff, fun k hk => ?_, fun fault => make_eq_error_iff⟩
  obtain ⟨rfl, rfl, rfl⟩ := make_eq_ok_iff.mp hk
  refine ⟨rfl, rfl, rfl, k.nullCount_eq, ?_⟩
  rw [nullCount_eq, length_nullWords_add]

/-- The link that repeats another one is accepted only with its connectors, and
its words count once. -/
theorem make_checks_parts_twice :
    (AreParts 5 (Sample.twice "Ss") .zero ∧
        ∃ k, make 5 (Sample.twice "Ss") .zero = .ok k ∧ k.nullCount + 3 = 5) ∧
      IsReported 4 (Sample.twice "Os") .zero (.conflict 0 2 0 1) := by
  obtain ⟨haccepted, hcounted, -⟩ := make_checks_parts 5 (Sample.twice "Ss") .zero
  obtain ⟨-, -, hreported⟩ := make_checks_parts 4 (Sample.twice "Os") .zero
  have hmade : ∃ k, make 5 (Sample.twice "Ss") .zero = .ok k := ⟨_, rfl⟩
  have hends : (endWords (Sample.twice "Ss")).card = 3 := by decide
  obtain ⟨k, hk⟩ := hmade
  obtain ⟨-, -, -, -, hcount⟩ := hcounted k hk
  rw [hends] at hcount
  exact ⟨⟨haccepted.mp ⟨k, hk⟩, k, hk, hcount⟩, (hreported _).mp rfl⟩

end Linkage

end LinkParse
