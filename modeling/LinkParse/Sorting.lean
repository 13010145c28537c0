/-!
# Sorting

Insertion sort by a comparison. The result is a permutation of the list
(`sort_perm`) and, for a total and transitive comparison, ascending
(`pairwise_sort`). Numbers in ascending order, less their repetitions,
ascend strictly (`pairwise_dedup`). The definitions recurse on the list, so
the kernel evaluates them on concrete lists.
-/

namespace LinkParse

namespace Sorting

variable {α : Type}

/-- Puts an element in front of the first one that it may precede. -/
def insert (le : α → α → Bool) (x : α) : List α → List α
  | [] => [x]
  | y :: ys => if le x y then x :: y :: ys else y :: insert le x ys

/-- The list in ascending order. Elements that may precede each other keep
their order. -/
def sort (le : α → α → Bool) : List α → List α
  | [] => []
  | x :: xs => insert le x (sort le xs)

theorem insert_perm (le : α → α → Bool) (x : α) : ∀ ys : List α, (insert le x ys).Perm (x :: ys)
  | [] => .refl _
  | y :: ys => by
    rw [insert]
    split
    · exact .refl _
    · exact ((insert_perm le x ys).cons y).trans (.swap x y ys)

theorem sort_perm (le : α → α → Bool) : ∀ xs : List α, (sort le xs).Perm xs
  | [] => .refl _
  | x :: xs => (insert_perm le x _).trans ((sort_perm le xs).cons x)

@[simp] theorem mem_sort {le : α → α → Bool} {x : α} {xs : List α} : x ∈ sort le xs ↔ x ∈ xs :=
  (sort_perm le xs).mem_iff

theorem insert_map {β : Type} {le : β → β → Bool} (f : α → β) (x : α) : ∀ ys : List α,
    insert le (f x) (ys.map f) = (insert (fun a b => le (f a) (f b)) x ys).map f
  | [] => rfl
  | y :: ys => by
    rw [List.map_cons, insert, insert, insert_map f x ys]
    split <;> rfl

/-- Sorting by what a function makes of the elements. -/
theorem sort_map {β : Type} {le : β → β → Bool} (f : α → β) : ∀ xs : List α,
    sort le (xs.map f) = (sort (fun a b => le (f a) (f b)) xs).map f
  | [] => rfl
  | x :: xs => by rw [List.map_cons, sort, sort_map f xs, insert_map, sort]

theorem pairwise_insert {le : α → α → Bool}
    (trans : ∀ a b c, le a b = true → le b c = true → le a c = true)
    (total : ∀ a b, le a b = true ∨ le b a = true) (x : α) :
    ∀ {ys : List α}, ys.Pairwise (le · ·) → (insert le x ys).Pairwise (le · ·)
  | [], _ => List.pairwise_singleton _ _
  | y :: ys, h => by
    have hy := List.pairwise_cons.1 h
    rw [insert]
    split
    · next hxy =>
      refine List.pairwise_cons.2 ⟨fun z hz => ?_, h⟩
      rcases List.mem_cons.1 hz with rfl | hz
      · exact hxy
      · exact trans _ _ _ hxy (hy.1 z hz)
    · next hxy =>
      refine List.pairwise_cons.2 ⟨fun z hz => ?_, pairwise_insert trans total x hy.2⟩
      rcases List.mem_cons.1 ((insert_perm le x ys).mem_iff.1 hz) with rfl | hz
      · exact (total y z).resolve_right hxy
      · exact hy.1 z hz

theorem pairwise_sort {le : α → α → Bool}
    (trans : ∀ a b c, le a b = true → le b c = true → le a c = true)
    (total : ∀ a b, le a b = true ∨ le b a = true) :
    ∀ xs : List α, (sort le xs).Pairwise (le · ·)
  | [] => .nil
  | x :: xs => pairwise_insert trans total x (pairwise_sort trans total xs)

/-! ## Repetitions -/

/-- The list without the numbers that repeat the one before them. -/
def dedup : List Nat → List Nat
  | [] => []
  | [x] => [x]
  | x :: y :: ys => if x = y then dedup (y :: ys) else x :: dedup (y :: ys)

@[simp] theorem mem_dedup {n : Nat} {xs : List Nat} : n ∈ dedup xs ↔ n ∈ xs := by
  fun_induction dedup xs with
  | case1 => rfl
  | case2 x => rfl
  | case3 y ys ih => simp [ih]
  | case4 x y ys _ ih => simp [ih]

theorem pairwise_dedup {xs : List Nat} (h : xs.Pairwise (· ≤ ·)) :
    (dedup xs).Pairwise (· < ·) := by
  fun_induction dedup xs with
  | case1 => exact .nil
  | case2 x => exact List.pairwise_singleton _ _
  | case3 y ys ih => exact ih h.of_cons
  | case4 x y ys hne ih =>
      rw [List.pairwise_cons] at h
      refine List.pairwise_cons.2 ⟨fun z hz => ?_, ih h.2⟩
      have hxy : x ≤ y := h.1 y (List.mem_cons_self ..)
      have hyz : y ≤ z := by
        rcases List.mem_cons.1 (mem_dedup.1 hz) with rfl | hz
        · exact Nat.le_refl z
        · exact (List.pairwise_cons.1 h.2).1 z hz
      omega

end Sorting

end LinkParse
