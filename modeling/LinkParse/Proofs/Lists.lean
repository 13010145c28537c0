import Mathlib.Data.List.Basic

/-!
# Lists

What a look-up by position says: where at most one position qualifies, where
a list is ordered, and where the first of several answers counts. And what a
list is when a test has gone over it.
-/

namespace LinkParse

variable {α : Type}

/-- Where two positions never both qualify, the first one that does is any
one that does. -/
theorem findIdx?_eq_some_iff_of_unique {p : α → Bool} {xs : List α}
    (huniq : ∀ (i j : Nat) x y, xs[i]? = some x → xs[j]? = some y → p x = true → p y = true → i = j)
    {k : Nat} : xs.findIdx? p = some k ↔ ∃ x, xs[k]? = some x ∧ p x = true := by
  rw [List.findIdx?_eq_some_iff_getElem]
  constructor
  · rintro ⟨hk, hp, -⟩
    exact ⟨xs[k], List.getElem?_eq_getElem hk, hp⟩
  · rintro ⟨x, hx, hp⟩
    obtain ⟨hk, rfl⟩ := List.getElem?_eq_some_iff.mp hx
    refine ⟨hk, hp, fun j hj hpj => ?_⟩
    have hjk := huniq j k _ _ (List.getElem?_eq_getElem (Nat.lt_trans hj hk)) hx hpj hp
    omega

/-- The elements before a position of an ordered list are those that the
order puts before the element there. -/
theorem mem_take_iff_of_pairwise {r : α → α → Prop} (hasymm : ∀ x y, r x y → ¬r y x) {xs : List α}
    (hxs : xs.Pairwise r) {k : Nat} {x y : α} (hx : xs[k]? = some x) :
    y ∈ xs.take k ↔ y ∈ xs ∧ r y x := by
  obtain ⟨hk, rfl⟩ := List.getElem?_eq_some_iff.mp hx
  rw [List.pairwise_iff_getElem] at hxs
  rw [List.mem_take_iff_getElem, List.mem_iff_getElem]
  constructor
  · rintro ⟨i, hi, rfl⟩
    have hik : i < k := by omega
    exact ⟨⟨i, by omega, rfl⟩, hxs i k (by omega) hk hik⟩
  · rintro ⟨⟨i, hi, rfl⟩, hr⟩
    rcases Nat.lt_trichotomy i k with hik | rfl | hki
    · exact ⟨i, by omega, rfl⟩
    · exact absurd hr (hasymm _ _ hr)
    · exact absurd (hxs k i hk hi hki) (hasymm _ _ hr)

/-- Keeping what stands at any other position than one is dropping what stands
there. -/
theorem map_fst_filter_zipIdx_ne : ∀ (xs : List α) (i k : Nat),
    ((xs.zipIdx k).filter (·.2 ≠ i + k)).map (·.1) = xs.eraseIdx i
  | [], _, _ => rfl
  | x :: xs, 0, k => by
      have hrest : (xs.zipIdx (k + 1)).filter (·.2 ≠ 0 + k) = xs.zipIdx (k + 1) := by
        rw [List.filter_eq_self]
        intro p hp
        have hle := List.le_snd_of_mem_zipIdx hp
        exact decide_eq_true (by omega)
      rw [List.zipIdx_cons, List.filter_cons, if_neg (by simp), hrest, List.zipIdx_map_fst]
      rfl
  | x :: xs, i + 1, k => by
      have hk : i + 1 + k = i + (k + 1) := by omega
      rw [List.zipIdx_cons, List.filter_cons, if_pos (decide_eq_true (by simp)), List.map_cons, hk,
        map_fst_filter_zipIdx_ne xs i (k + 1)]
      rfl

/-- Which positions of a list qualify. -/
theorem mem_positions_iff {p : α × Nat → Bool} {xs : List α} {i : Nat} :
    i ∈ (xs.zipIdx.filter p).map Prod.snd ↔ ∃ x, xs[i]? = some x ∧ p (x, i) = true := by
  simp only [List.mem_map, List.mem_filter, Prod.exists, exists_eq_right,
    List.mk_mem_zipIdx_iff_getElem?]

/-- Positions that qualify are listed in ascending order. -/
theorem pairwise_positions (p : α × Nat → Bool) (xs : List α) :
    ((xs.zipIdx.filter p).map Prod.snd).Pairwise (· < ·) := by
  have hall : (xs.zipIdx.map Prod.snd).Pairwise (· < ·) := by
    rw [List.zipIdx_map_snd]
    exact List.pairwise_lt_range'
  exact hall.sublist (List.filter_sublist.map Prod.snd)

/-- Lists of at most one element each, put one behind the other. -/
theorem flatMap_eq_map_filter {β : Type} {f : α → List β} {p : α → Bool} {g : α → β} :
    ∀ {xs : List α}, (∀ x ∈ xs, f x = if p x then [g x] else []) →
      xs.flatMap f = (xs.filter p).map g
  | [], _ => rfl
  | x :: xs, h => by
      rw [List.forall_mem_cons] at h
      rw [List.flatMap_cons, List.filter_cons, flatMap_eq_map_filter h.2, h.1]
      split <;> rfl

/-- The first answer comes from the first position that has one. -/
theorem getElem?_of_findSome?_eq_some {β : Type} {f : α → Option β} {xs : List α} {b : β}
    (h : xs.findSome? f = some b) :
    ∃ (p : Nat) (x : α), xs[p]? = some x ∧ f x = some b ∧
      ∀ q < p, ∀ y, xs[q]? = some y → f y = none := by
  obtain ⟨before, x, after, rfl, hx, hbefore⟩ := List.findSome?_eq_some_iff.mp h
  refine ⟨before.length, x, by simp, hx, fun q hq y hy => ?_⟩
  rw [List.getElem?_append_left hq] at hy
  exact hbefore y (List.mem_of_getElem? hy)

theorem getElem?_zipIdx_eq_some_iff {xs : List α} {i : Nat} {q : α × Nat} :
    xs.zipIdx[i]? = some q ↔ xs[i]? = some q.1 ∧ q.2 = i := by
  obtain ⟨x, n⟩ := q
  rw [List.getElem?_zipIdx, Option.map_eq_some_iff]
  simp [eq_comm]

/-- The first element that qualifies, with its position. -/
theorem find?_zipIdx_eq_some {p : α → Bool} {xs : List α} {i : Nat} {x : α} (hx : xs[i]? = some x)
    (hp : p x = true) (hbefore : ∀ j < i, ∀ y, xs[j]? = some y → p y = false) :
    (xs.zipIdx.find? fun q => p q.1) = some (x, i) := by
  obtain ⟨hi, rfl⟩ := List.getElem?_eq_some_iff.mp hx
  rw [List.find?_eq_some_iff_getElem]
  refine ⟨hp, i, by simpa using hi, by simp, fun j hj => ?_⟩
  rw [List.getElem_zipIdx, hbefore j hj _ (List.getElem?_eq_getElem (Nat.lt_trans hj hi))]
  rfl

/-- The first answer of a test that is told the positions. -/
theorem findSome?_zipIdx_eq_some_iff {β : Type} {f : α → Nat → Option β} {xs : List α} {b : β} :
    (xs.zipIdx.findSome? fun q => f q.1 q.2) = some b ↔ ∃ i x, xs[i]? = some x ∧ f x i = some b ∧
      ∀ j < i, ∀ y, xs[j]? = some y → f y j = none := by
  constructor
  · intro h
    obtain ⟨i, q, hq, hb, hbefore⟩ := getElem?_of_findSome?_eq_some h
    obtain ⟨hx, rfl⟩ := getElem?_zipIdx_eq_some_iff.mp hq
    exact ⟨q.2, q.1, hx, hb, fun j hj y hy =>
      hbefore j hj (y, j) (getElem?_zipIdx_eq_some_iff.mpr ⟨hy, rfl⟩)⟩
  · rintro ⟨i, x, hx, hb, hbefore⟩
    obtain ⟨hi, hxi⟩ := List.getElem?_eq_some_iff.mp
      (getElem?_zipIdx_eq_some_iff (q := (x, i)) |>.mpr ⟨hx, rfl⟩)
    refine List.findSome?_eq_some_iff.mpr
      ⟨xs.zipIdx.take i, (x, i), xs.zipIdx.drop (i + 1), ?_, hb, fun q hq => ?_⟩
    · rw [← hxi, List.getElem_cons_drop, List.take_append_drop]
    · obtain ⟨j, hj, hqj⟩ := List.mem_take_iff_getElem.mp hq
      obtain ⟨hy, rfl⟩ := getElem?_zipIdx_eq_some_iff.mp
        (List.getElem?_eq_some_iff.mpr ⟨by omega, hqj⟩)
      exact hbefore q.2 (by omega) q.1 hy

/-- Functions that agree on a list have one first answer there. -/
theorem findSome?_congr {β : Type} {f g : α → Option β} : ∀ {xs : List α},
    (∀ x ∈ xs, f x = g x) → xs.findSome? f = xs.findSome? g
  | [], _ => rfl
  | x :: xs, h => by
      rw [List.forall_mem_cons] at h
      rw [List.findSome?_cons, List.findSome?_cons, h.1, findSome?_congr h.2]

/-- Where an element qualifies only if an earlier one does, the list without it
has the same first element that qualifies. -/
theorem find?_eraseIdx_of_earlier {p : α → Bool} : ∀ {xs : List α} {k : Nat},
    (∀ y, xs[k]? = some y → p y = true → ∃ i < k, ∃ x, xs[i]? = some x ∧ p x = true) →
      (xs.eraseIdx k).find? p = xs.find? p
  | [], _, _ => by rw [List.eraseIdx_nil]
  | x :: xs, 0, h => by
      have hx : ¬p x = true := fun hx => by
        obtain ⟨i, hi, -⟩ := h x rfl hx
        exact Nat.not_lt_zero i hi
      rw [List.eraseIdx_cons_zero, List.find?_cons_of_neg hx]
  | x :: xs, k + 1, h => by
      rw [List.eraseIdx_cons_succ]
      by_cases hx : p x = true
      · rw [List.find?_cons_of_pos hx, List.find?_cons_of_pos hx]
      · rw [List.find?_cons_of_neg hx, List.find?_cons_of_neg hx]
        refine find?_eraseIdx_of_earlier fun y hy hpy => ?_
        obtain ⟨i, hi, z, hz, hpz⟩ := h y hy hpy
        cases i with
        | zero => exact absurd (Option.some.inj hz ▸ hpz) hx
        | succ i => exact ⟨i, Nat.lt_of_succ_lt_succ hi, z, hz, hpz⟩

/-- A list with another element at a position is the same list before and
behind it. -/
theorem exists_eq_append_of_getElem? {xs : List α} {i : Nat} {x : α} (h : xs[i]? = some x) :
    ∃ before behind, xs = before ++ x :: behind ∧ ∀ y, xs.set i y = before ++ y :: behind := by
  obtain ⟨hi, rfl⟩ := List.getElem?_eq_some_iff.mp h
  refine ⟨xs.take i, xs.drop (i + 1), ?_, fun y => ?_⟩
  · rw [List.getElem_cons_drop, List.take_append_drop]
  · rw [List.set_eq_take_append_cons_drop, if_pos hi]

/-- Where nothing that qualifies stands behind something that does not, what
qualifies is the front of the list. -/
theorem filter_isPrefix_of_pairwise {p : α → Bool} :
    ∀ {xs : List α}, xs.Pairwise (fun x y => p y = true → p x = true) → xs.filter p <+: xs
  | [], _ => List.nil_prefix
  | x :: xs, h => by
      rw [List.pairwise_cons] at h
      by_cases hx : p x = true
      · rw [List.filter_cons_of_pos hx, List.prefix_cons_inj]
        exact filter_isPrefix_of_pairwise h.2
      · have hnone : xs.filter p = [] := by
          rw [List.filter_eq_nil_iff]
          exact fun y hy => mt (h.1 y hy) hx
        rw [List.filter_cons_of_neg hx, hnone]
        exact List.nil_prefix

/-- Where no key comes twice, an element is the only one with its key. -/
theorem filter_key_eq_singleton {β : Type} [DecidableEq β] {f : α → β} {xs : List α} {x : α}
    (hnodup : (xs.map f).Nodup) (hx : x ∈ xs) : xs.filter (f · == f x) = [x] := by
  induction xs with
  | nil => cases hx
  | cons y ys ih =>
      obtain ⟨hy, hnodup⟩ := List.nodup_cons.mp hnodup
      rcases List.mem_cons.mp hx with rfl | hx
      · have hnone : ys.filter (f · == f x) = [] := by
          rw [List.filter_eq_nil_iff]
          intro z hz heq
          exact hy (beq_iff_eq.mp heq ▸ List.mem_map_of_mem hz)
        rw [List.filter_cons_of_pos (by simp), hnone]
      · have hne : f y ≠ f x := fun heq => hy (heq ▸ List.mem_map_of_mem hx)
        rw [List.filter_cons_of_neg (by simpa using hne)]
        exact ih hnodup hx

end LinkParse
