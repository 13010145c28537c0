import Mathlib.Data.List.Basic

/-!
# Runs of calls

Something that is called has a state; a call leaves a state behind and gets
an answer. A run makes calls one after the other. The answer to a call is
the one that the state after the earlier calls gives (`getElem?_answers`),
so a fact about answers is a fact about states and one step. A call that
leaves every state as it is can be taken out of a run with its answer, and
nothing else changes (`run_eraseIdx`).
-/

namespace LinkParse

namespace Calls

variable {σ κ α : Type}

/-- The state after calls, and their answers in order. -/
def run (step : σ → κ → σ × α) : σ → List κ → σ × List α
  | s, [] => (s, [])
  | s, c :: cs =>
    let (t, answer) := step s c
    let (u, answers) := run step t cs
    (u, answer :: answers)

variable {step : σ → κ → σ × α} {s : σ} {c : κ} {cs ds : List κ}

@[simp] theorem run_nil : run step s [] = (s, []) := rfl

@[simp] theorem run_cons : run step s (c :: cs) =
    ((run step (step s c).1 cs).1, (step s c).2 :: (run step (step s c).1 cs).2) := rfl

theorem run_append : run step s (cs ++ ds) =
    ((run step (run step s cs).1 ds).1,
      (run step s cs).2 ++ (run step (run step s cs).1 ds).2) := by
  induction cs generalizing s with
  | nil => rfl
  | cons c cs ih => simp [ih]

theorem length_answers : (run step s cs).2.length = cs.length := by
  induction cs generalizing s with
  | nil => rfl
  | cons c cs ih => simp [ih]

/-- A call is answered by the state that the calls before it have left. -/
theorem getElem?_answers (i : Nat) : (run step s cs).2[i]? =
    cs[i]?.map fun c => (step (run step s (cs.take i)).1 c).2 := by
  induction cs generalizing s i with
  | nil => rfl
  | cons c cs ih =>
      cases i with
      | zero => rfl
      | succ i => simp [ih]

/-- A call goes on from the state that the calls before it have left. -/
theorem state_take_succ {i : Nat} (hc : cs[i]? = some c) :
    (run step s (cs.take (i + 1))).1 = (step (run step s (cs.take i)).1 c).1 := by
  rw [List.take_add_one, hc, Option.toList_some, run_append]
  rfl

/-- A run goes through the states of its beginnings. -/
theorem state_drop (i : Nat) :
    (run step (run step s (cs.take i)).1 (cs.drop i)).1 = (run step s cs).1 := by
  conv_rhs => rw [← List.take_append_drop i cs, run_append]

/-- Without a call that leaves states as they are a run ends in the same state
and gets the same answers to the other calls. -/
theorem run_eraseIdx {before after : List κ} (hc : ∀ t, (step t c).1 = t) :
    run step s (before ++ after) = ((run step s (before ++ c :: after)).1,
      (run step s (before ++ c :: after)).2.eraseIdx before.length) := by
  have hlength : (run step s before).2.length = before.length := length_answers
  rw [run_append, run_append, run_cons, hc, List.eraseIdx_append_of_length_le (by omega), hlength]
  simp

end Calls

end LinkParse
