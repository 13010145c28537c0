import LinkParse.Document.Decode
import LinkParse.Proofs.Value

/-!
# Computations with costs

A computation makes one cost after another, from numbers, from texts and
from the costs that it has made before (`Cost.Step`); what a step refuses to
make is left out. Costs carry what they are known to satisfy, and so their
sums need no check. A bare computation carries nothing (`Cost.Bare`): it
tests every number, brings it into the range by comparing it with the ends,
and adds the zero to it, which changes the negative zero alone.

Step by step both compute the same numbers and refuse the same steps
(`Step.bare_map`), hence whole computations do (`run_bare`). What is known
of costs therefore holds of all numbers that are computed without
certificates: their encodings are canonical, their sums and differences are
never refused, and their total order is that of the rational numbers that
the encodings denote (`order_eq_compare`).
-/

namespace LinkParse

/-! ## The bare operations -/

namespace Cost

/-- What a step does not make a cost of. -/
inductive Refusal where
  | fault (fault : Fault)
  | malformed (malformed : Malformed)
  | misfit (misfit : Document.Misfit)
  | missing (index : Nat)
deriving Repr, DecidableEq

namespace Bare

/-- Adds the zero: the negative zero becomes positive. -/
def normalized (x : Binary64) : Binary64 := x + .zero

def clamp (x : Binary64) : Binary64 :=
  if x < .greatest true then .greatest true
  else if .greatest false < x then .greatest false
  else x

def of (x : Binary64) : Except Fault Binary64 :=
  if x.isFinite then .ok (normalized x) else .error (.notFinite x)

def saturating (x : Binary64) : Except Fault Binary64 :=
  if x.isNan then .error .notANumber else .ok (normalized (clamp x))

def ofInt (i : Int64) : Except Fault Binary64 := of (.ofInt i.toInt)

/-- A number that passes the test is tested once more by `of`. -/
def ofNumber (x : Binary64) : Except Refusal Binary64 :=
  if x.isFinite then (of x).mapError .fault else .error (.malformed (.notFinite x))

def parse (s : String) : Except Refusal Binary64 :=
  let cs := Text.trimChars s.toList
  if cs.isEmpty then .error (.malformed .empty)
  else
    match Binary64.parse? cs with
    | none => .error (.malformed (.notANumeral (String.ofList cs)))
    | some x => ofNumber x

def add (x y : Binary64) : Except Fault Binary64 := saturating (x + y)

def sub (x y : Binary64) : Except Fault Binary64 := saturating (x - y)

def sum (xs : List Binary64) : Except Fault Binary64 := xs.foldlM add .zero

/-! ## Agreement with costs -/

theorem normalized_finite (s : Bool) (m : Fin Binary64.limit) :
    normalized (.finite s m) = (ofFinite (.finite s m) rfl).value := by
  have hzero : Binary64.signedUnits s m + Binary64.signedUnits false 0
      = Binary64.signedUnits s m := Int.add_zero _
  rw [normalized, show Binary64.zero = .finite false ⟨0, by decide⟩ from rfl,
    Binary64.finite_add_finite, hzero, value_ofFinite]
  by_cases hm : m.val = 0
  · rw [if_pos (Binary64.signedUnits_eq_zero_iff.mpr hm), if_pos hm, Bool.and_false]
    rfl
  · rw [if_neg (mt Binary64.signedUnits_eq_zero_iff.mp hm), if_neg hm,
      Binary64.ofSum_signedUnits s hm]

theorem normalized_eq {x : Binary64} (h : x.isFinite = true) :
    normalized x = (ofFinite x h).value := by
  cases x with
  | nan => cases h
  | inf s => cases h
  | finite s m => exact normalized_finite s m

theorem clamp_finite (s : Bool) (m : Fin Binary64.limit) :
    clamp (.finite s m) = .finite s m := by
  obtain ⟨hleast, hgreatest⟩ := Binary64.abs_signedUnits_le s m
  have hlt : ¬ Binary64.finite s m < .greatest true := fun h => h.2 hleast
  have hgt : ¬ Binary64.greatest false < .finite s m := fun h => h.2 hgreatest
  unfold clamp
  rw [if_neg hlt, if_neg hgt]

theorem normalized_clamp {x : Binary64} (h : x ≠ .nan) :
    normalized (clamp x) = (Cost.clamp x h).value := by
  cases x with
  | nan => exact absurd rfl h
  | inf s =>
      have hclamp : clamp (.inf s) = .finite s ⟨Binary64.limit - 1, by decide⟩ := by
        cases s <;> decide
      rw [hclamp, normalized_finite, value_ofFinite]
      cases s <;> rfl
  | finite s m =>
      rw [clamp_finite, normalized_finite]
      rfl

theorem of_eq (x : Binary64) : Bare.of x = (Cost.of x).map Cost.value := by
  unfold Bare.of Cost.of
  split
  · next h => rw [normalized_eq h]; rfl
  · rfl

theorem saturating_eq (x : Binary64) :
    Bare.saturating x = (Cost.saturating x).map Cost.value := by
  unfold Bare.saturating Cost.saturating
  by_cases h : x = .nan
  · subst h
    rfl
  · have hnan : ¬ x.isNan = true := by cases x <;> simp_all [Binary64.isNan]
    rw [if_neg hnan, dif_neg h, normalized_clamp h]
    rfl

/-- A finite number is within the range already. -/
theorem of_eq_ok {x : Binary64} (hfinite : x.isFinite = true) (hnan : x ≠ .nan) :
    Bare.of x = .ok (Cost.clamp x hnan).value := by
  rw [of_eq, Cost.of, dif_pos hfinite]
  cases x with
  | nan => cases hfinite
  | inf s => cases hfinite
  | finite s m => rfl

theorem ofInt_eq (i : Int64) : Bare.ofInt i = .ok (Cost.ofInt i.toInt).value := by
  have hsize : i.toInt.natAbs ≤ 2 ^ 63 := by
    have hlow := i.le_toInt
    have hhigh := i.toInt_lt
    omega
  exact of_eq_ok (Binary64.isFinite_ofInt (hsize.trans (by decide +kernel))) _

theorem ofNumber_eq (x : Binary64) :
    Bare.ofNumber x = ((Cost.ofNumber x).mapError .malformed).map Cost.value := by
  unfold Bare.ofNumber Cost.ofNumber
  split
  · next h => rw [of_eq, Cost.of, dif_pos h]; rfl
  · rfl

theorem parse_eq (s : String) :
    Bare.parse s = ((Cost.parse s).mapError .malformed).map Cost.value := by
  unfold Bare.parse Cost.parse
  dsimp only
  split
  · rfl
  · cases Binary64.parse? (Text.trimChars s.toList) with
    | none => rfl
    | some x => exact ofNumber_eq x

theorem saturating_eq_ok {x : Binary64} (h : x ≠ .nan) :
    Bare.saturating x = .ok (Cost.clamp x h).value := by
  rw [saturating_eq, Cost.saturating, dif_neg h]
  rfl

theorem add_eq (a b : Cost) : Bare.add a.value b.value = .ok (a + b).value :=
  saturating_eq_ok _

theorem sub_eq (a b : Cost) : Bare.sub a.value b.value = .ok (a - b).value :=
  saturating_eq_ok _

theorem sum_eq (cs : List Cost) : Bare.sum (cs.map Cost.value) = .ok (Cost.sum cs).value := by
  have hfold : ∀ (cs : List Cost) (start : Cost),
      (cs.map Cost.value).foldlM Bare.add start.value = .ok (cs.foldl (· + ·) start).value := by
    intro cs
    induction cs with
    | nil => exact fun _ => rfl
    | cons c cs ih =>
        intro start
        rw [List.map_cons, List.foldlM_cons, add_eq]
        exact ih (start + c)
  exact hfold cs .zero

end Bare

/-! ## Computations -/

/-- A step of a computation. The costs that it uses are given by their places
among the costs made before. -/
inductive Step where
  | zero
  | greatest
  | least
  | of (x : Binary64)
  | saturating (x : Binary64)
  | ofInt (i : Int64)
  | ofNumber (x : Binary64)
  | parse (s : String)
  | decode (d : Document)
  | add (i j : Nat)
  | sub (i j : Nat)
  | sum (is : List Nat)

namespace Step

def pick {α : Type} (made : List α) (i : Nat) : Except Refusal α :=
  match made[i]? with
  | some x => .ok x
  | none => .error (.missing i)

def make (made : List Cost) : Step → Except Refusal Cost
  | zero => .ok .zero
  | greatest => .ok .greatest
  | least => .ok .least
  | of x => (Cost.of x).mapError .fault
  | saturating x => (Cost.saturating x).mapError .fault
  | ofInt i => .ok (.ofInt i.toInt)
  | ofNumber x => (Cost.ofNumber x).mapError .malformed
  | parse s => (Cost.parse s).mapError .malformed
  | decode d => do
    let x ← d.asNumber.mapError .misfit
    (Cost.ofNumber x).mapError .malformed
  | add i j => do return (← pick made i) + (← pick made j)
  | sub i j => do return (← pick made i) - (← pick made j)
  | sum is => do return Cost.sum (← is.mapM (pick made))

/-- The step on numbers without certificates. -/
def bare (made : List Binary64) : Step → Except Refusal Binary64
  | zero => .ok .zero
  | greatest => .ok (.greatest false)
  | least => .ok (.greatest true)
  | of x => (Bare.of x).mapError .fault
  | saturating x => (Bare.saturating x).mapError .fault
  | ofInt i => (Bare.ofInt i).mapError .fault
  | ofNumber x => Bare.ofNumber x
  | parse s => Bare.parse s
  | decode d => do
    let x ← d.asNumber.mapError .misfit
    Bare.ofNumber x
  | add i j => do (Bare.add (← pick made i) (← pick made j)).mapError .fault
  | sub i j => do (Bare.sub (← pick made i) (← pick made j)).mapError .fault
  | sum is => do (Bare.sum (← is.mapM (pick made))).mapError .fault

theorem pick_map {α β : Type} (f : α → β) (made : List α) (i : Nat) :
    pick (made.map f) i = (pick made i).map f := by
  unfold pick
  rw [List.getElem?_map]
  cases made[i]? <;> rfl

theorem mapM_pick_map {α β : Type} (f : α → β) (made : List α) (is : List Nat) :
    is.mapM (pick (made.map f)) = (is.mapM (pick made)).map (List.map f) := by
  induction is with
  | nil => rfl
  | cons i is ih =>
      rw [List.mapM_cons, List.mapM_cons, pick_map, ih]
      cases pick made i with
      | error e => rfl
      | ok x => cases is.mapM (pick made) <;> rfl

theorem mapError_map {ε ε' α β : Type} (f : α → β) (g : ε → ε') (x : Except ε α) :
    (x.map f).mapError g = (x.mapError g).map f := by
  cases x <;> rfl

/-- Operations that agree on costs agree on those that were made before. -/
theorem bare_pick_map {f : Binary64 → Binary64 → Except Fault Binary64} {g : Cost → Cost → Cost}
    (h : ∀ a b : Cost, f a.value b.value = .ok (g a b).value) (made : List Cost) (i j : Nat) :
    (do (f (← pick (made.map Cost.value) i) (← pick (made.map Cost.value) j)).mapError .fault) =
      Except.map Cost.value
        (do return g (← pick made i) (← pick made j) : Except Refusal Cost) := by
  rw [pick_map, pick_map]
  cases pick made i with
  | error e => rfl
  | ok a =>
      cases pick made j with
      | error e => rfl
      | ok b => exact congrArg (Except.mapError _) (h a b)

/-- A step gives the same number, or the same refusal, without certificates. -/
theorem bare_map (made : List Cost) (s : Step) :
    s.bare (made.map Cost.value) = (s.make made).map Cost.value := by
  cases s with
  | zero => rfl
  | greatest => rfl
  | least => rfl
  | of x => rw [bare, make, Bare.of_eq, mapError_map]
  | saturating x => rw [bare, make, Bare.saturating_eq, mapError_map]
  | ofInt i => rw [bare, make, Bare.ofInt_eq]; rfl
  | ofNumber x => exact Bare.ofNumber_eq x
  | parse s => exact Bare.parse_eq s
  | decode d =>
      rw [bare, make]
      cases d.asNumber with
      | error e => rfl
      | ok x => exact Bare.ofNumber_eq x
  | add i j => exact bare_pick_map Bare.add_eq made i j
  | sub i j => exact bare_pick_map Bare.sub_eq made i j
  | sum is =>
      rw [bare, make, mapM_pick_map]
      cases is.mapM (pick made) with
      | error e => rfl
      | ok cs => exact congrArg (Except.mapError _) (Bare.sum_eq cs)

end Step

/-- Makes what the steps make, one after another. -/
def run {α : Type} (make : List α → Step → Except Refusal α) : List α → List Step → List α
  | made, [] => made
  | made, s :: steps =>
    match make made s with
    | .ok x => run make (made ++ [x]) steps
    | .error _ => run make made steps

theorem run_bare (steps : List Step) (made : List Cost) :
    run Step.bare (made.map Cost.value) steps = (run Step.make made steps).map Cost.value := by
  induction steps generalizing made with
  | nil => rfl
  | cons s steps ih =>
      rw [run, run, Step.bare_map]
      cases s.make made with
      | error e => exact ih made
      | ok c =>
          have hmap : made.map Cost.value ++ [c.value] = (made ++ [c]).map Cost.value := by
            rw [List.map_append, List.map_singleton]
          exact (congrArg (run Step.bare · steps) hmap).trans (ih _)

/-! ## Encodings and values -/

/-- The encoding of a finite number other than the negative zero. -/
structure IsCanonical (bits : Nat) : Prop where
  lt : bits < 2 ^ 64
  finite : Binary64.exponentField bits ≠ 2047
  not_negative_zero : bits ≠ 2 ^ 63

theorem isCanonical_bits (a : Cost) : IsCanonical a.value.bits := by
  obtain ⟨x, hfinite, hzero⟩ := a
  cases x with
  | nan => cases hfinite
  | inf s => cases hfinite
  | finite s m =>
      have hm : m.val < 2047 * 2 ^ 52 := m.isLt
      refine ⟨Binary64.bits_lt _, ?_, fun h => ?_⟩
      · rw [(Binary64.fields_bits s m).2.1]
        omega
      · cases s with
        | false =>
            rw [Binary64.bits_finite_false] at h
            omega
        | true =>
            rw [Binary64.bits_finite_true] at h
            have hne : m.val ≠ 0 := by simpa [Binary64.isNegativeZero] using hzero
            omega

/-- The total order of the encodings is the order of the rational numbers that
they denote. -/
theorem order_eq_compare (a b : Cost) : order a b =
    compare (Binary64.valueOfBits a.value.bits) (Binary64.valueOfBits b.value.bits) := by
  have hvalue : ∀ a b : Cost, a.value.rank < b.value.rank ↔
      Binary64.valueOfBits a.value.bits < Binary64.valueOfBits b.value.bits := by
    intro a b
    rw [rank_lt_rank_iff, valueOfBits_bits, valueOfBits_bits,
      mul_lt_mul_iff_left₀ Binary64.unit_pos, Int.cast_lt]
  have hlt := hvalue a b
  have hgt := hvalue b a
  unfold order Binary64.totalOrder
  rcases lt_trichotomy a.value.rank b.value.rank with h | h | h
  · rw [compare_lt_iff_lt.mpr h, compare_lt_iff_lt.mpr (hlt.mp h)]
  · rw [compare_eq_iff_eq.mpr h, compare_eq_iff_eq.mpr]
    exact le_antisymm (not_lt.mp (mt hgt.mpr h.not_gt)) (not_lt.mp (mt hlt.mpr h.not_lt))
  · rw [compare_gt_iff_gt.mpr h, compare_gt_iff_gt.mpr (hgt.mp h)]

theorem eq_iff_bits_eq {a b : Cost} : a = b ↔ a.value.bits = b.value.bits := by
  refine ⟨fun h => h ▸ rfl, fun h => ?_⟩
  refine eq_of_rank_eq ?_
  unfold Binary64.rank
  rw [h]

theorem order_eq_eq_iff {a b : Cost} : order a b = .eq ↔ a = b := by
  unfold order Binary64.totalOrder
  rw [compare_eq_iff_eq]
  exact ⟨eq_of_rank_eq, fun h => h ▸ rfl⟩

/-- What is computed without certificates are the values of costs. The bits of
a cost are those of a finite number other than the negative zero; sums and
differences of costs are never refused; and the comparison of the bits is that
of the rational numbers that they denote, equality being that of the bits. -/
theorem bare_runs_sound (steps : List Step) :
    run Step.bare [] steps = (run Step.make [] steps).map Cost.value ∧
    ∀ a b : Cost,
      IsCanonical a.value.bits ∧
      Bare.add a.value b.value = .ok (a + b).value ∧
      Bare.sub a.value b.value = .ok (a - b).value ∧
      order a b = compare (Binary64.totalKey (.ofNat 64 a.value.bits)).toInt
        (Binary64.totalKey (.ofNat 64 b.value.bits)).toInt ∧
      order a b = compare (Binary64.valueOfBits a.value.bits)
        (Binary64.valueOfBits b.value.bits) ∧
      (order a b = .eq ↔ a = b) ∧ (a = b ↔ a.value.bits = b.value.bits) := by
  refine ⟨run_bare steps [], fun a b => ⟨isCanonical_bits a, Bare.add_eq a b, Bare.sub_eq a b, ?_,
    order_eq_compare a b, order_eq_eq_iff, eq_iff_bits_eq⟩⟩
  unfold order Binary64.totalOrder
  rw [Binary64.rank_eq_toInt, Binary64.rank_eq_toInt]

/-- The negative zero is read as zero, the sum of the ends is zero, and what
overflows stays at an end. -/
example : run Step.bare []
    [.of (.finite true ⟨0, by decide⟩), .greatest, .least, .add 1 2, .of .nan, .sub 2 1] =
    [.zero, .greatest false, .greatest true, .zero, .greatest true] := by
  decide +kernel

end Cost

end LinkParse
