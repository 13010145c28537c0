import LinkParse.Proofs.Calls
import LinkParse.Proofs.Derivation

/-!
# Label tables in use

Several tables are in use beside each other, and each is asked to intern
texts, to find and to count them, in any order (`LabelTable.runAll`). What a
table has grown by is known at any time: the texts that it was asked to
intern, each once (`growsBy_runAll`). A label that it has given stands in it
from then on, so labels of one table are one entry exactly if they have one
text, whenever and by whichever call they were given.

Who interns a text looks for it first, and comes back to add it only if it
was not there. Somebody else may have added it by then, so adding looks again
(`LabelTable.add`). Whatever the visits of several callers interleave to, the
answers are those of a run that makes the calls one after the other, in the
order in which they ended (`Visitors.IsLinear.run`).
-/

namespace LinkParse

namespace LabelTable

variable {t : LabelTable} {a b : Label} {s : String}

/-! ## Look-ups -/

theorem find?_eq_some_iff : t.find? s = some a ↔ a.StandsIn t ∧ a.text = s := by
  have hfound : ∀ {i : Nat}, t.texts.idxOf? s = some i → t.texts[i]? = some s := by
    intro i hi
    obtain ⟨hlt, htext, -⟩ := List.idxOf?_eq_some_iff.mp hi
    exact List.getElem?_eq_some_iff.mpr ⟨hlt, htext⟩
  unfold find?
  rw [Option.map_eq_some_iff]
  constructor
  · rintro ⟨i, hi, rfl⟩
    exact ⟨⟨rfl, hfound hi⟩, rfl⟩
  · rintro ⟨ha, rfl⟩
    have hmem : (t.texts.idxOf? a.text).isSome = true :=
      List.isSome_idxOf?.mpr (List.mem_of_getElem? ha.2)
    obtain ⟨i, hi⟩ := Option.isSome_iff_exists.mp hmem
    have hstands : Label.StandsIn ⟨t.id, i, a.text⟩ t := ⟨rfl, hfound hi⟩
    exact ⟨i, hi, hstands.eq_of_text_eq ha rfl⟩

theorem isSome_find?_iff : (t.find? s).isSome = true ↔ s ∈ t.texts := by
  unfold find?
  rw [Option.isSome_map, List.isSome_idxOf?]

theorem find?_eq_none_iff : t.find? s = none ↔ s ∉ t.texts := by
  rw [← isSome_find?_iff, Bool.not_eq_true, Option.isSome_eq_false_iff, Option.isNone_iff_eq_none]

/-- Interning by a caller who has not found the text: it is looked for again,
and added only where it is still missing. -/
def add (t : LabelTable) (s : String) : LabelTable × Label :=
  match t.find? s with
  | some a => (t, a)
  | none => (t.insert s, ⟨t.id, t.size, s⟩)

theorem intern_of_find?_eq_some (h : t.find? s = some a) : t.intern s = (t, a) := by
  obtain ⟨ha, rfl⟩ := find?_eq_some_iff.mp h
  exact intern_of_standsIn ha

/-- Whether the text is there or not, adding hands out the entry that the
table has for it. -/
theorem add_eq_intern (t : LabelTable) (s : String) : t.add s = t.intern s := by
  unfold add
  cases hfound : t.find? s with
  | some a => exact (intern_of_find?_eq_some hfound).symm
  | none =>
      have hnone := List.idxOf?_eq_none_iff.mpr (find?_eq_none_iff.mp hfound)
      unfold intern
      rw [hnone]
      rfl

/-! ## Calls -/

inductive Call where
  | intern (text : String)
  | find (text : String)
  | contains (text : String)
  | size
deriving DecidableEq

inductive Answer where
  | interned (a : Label)
  | found (a : Option Label)
  | contained (held : Bool)
  | size (n : Nat)
deriving DecidableEq

namespace Call

/-- The text that a call adds if it is new. -/
def interned? : Call → Option String
  | intern s => some s
  | _ => none

/-- The text of a call that asks for a label. -/
def text? : Call → Option String
  | intern s | find s => some s
  | _ => none

end Call

def Answer.label? : Answer → Option Label
  | interned a => some a
  | found a => a
  | _ => none

def call (t : LabelTable) : Call → LabelTable × Answer
  | .intern s => ((t.intern s).1, .interned (t.intern s).2)
  | .find s => (t, .found (t.find? s))
  | .contains s => (t, .contained (t.contains s))
  | .size => (t, .size t.size)

theorem growsBy_call (t : LabelTable) (c : Call) :
    t.GrowsBy c.interned?.toList (t.call c).1 := by
  cases c with
  | intern s => exact t.growsBy_insert s
  | find s => exact .refl t
  | contains s => exact .refl t
  | size => exact .refl t

theorem call_of_interned?_eq_none {c : Call} (h : c.interned? = none) (t : LabelTable) :
    (t.call c).1 = t := by
  cases c with
  | intern s => cases h
  | find s => rfl
  | contains s => rfl
  | size => rfl

/-- A label that is given stands in the table, and has the text asked for. -/
theorem standsIn_of_call {c : Call} (ha : (t.call c).2.label? = some a) :
    a.StandsIn (t.call c).1 ∧ c.text? = some a.text := by
  cases c with
  | intern s =>
      obtain rfl := Option.some.inj ha
      exact ⟨t.standsIn_intern s, rfl⟩
  | find s =>
      obtain ⟨hstands, rfl⟩ := find?_eq_some_iff.mp ha
      exact ⟨hstands, rfl⟩
  | contains s => cases ha
  | size => cases ha

/-! ## Runs over several tables -/

/-- A call to the table with a number, which is its `id`. -/
def callOne (tables : Nat → LabelTable) (c : Nat × Call) : (Nat → LabelTable) × Answer :=
  (Function.update tables c.1 ((tables c.1).call c.2).1, ((tables c.1).call c.2).2)

/-- The tables after calls, and their answers. -/
def runAll (tables : Nat → LabelTable) (calls : List (Nat × Call)) :
    (Nat → LabelTable) × List Answer :=
  Calls.run callOne tables calls

/-- The texts that calls have a table intern, in their order. -/
def interned (n : Nat) (calls : List (Nat × Call)) : List String :=
  calls.filterMap fun c => if c.1 = n then c.2.interned? else none

variable {tables : Nat → LabelTable} {calls : List (Nat × Call)} {c : Nat × Call} {i n : Nat}

theorem interned_cons (n : Nat) (c : Nat × Call) (calls : List (Nat × Call)) :
    interned n (c :: calls) =
      (if c.1 = n then c.2.interned? else none).toList ++ interned n calls := by
  unfold interned
  rw [List.filterMap_cons]
  split
  · next hnone => rw [hnone]; rfl
  · next text htext => rw [htext]; rfl

/-- A call changes the one table that it is made to. -/
theorem growsBy_callOne (tables : Nat → LabelTable) (c : Nat × Call) (n : Nat) :
    (tables n).GrowsBy (if c.1 = n then c.2.interned? else none).toList
      ((callOne tables c).1 n) := by
  by_cases hn : c.1 = n
  · subst hn
    simp only [callOne, if_true, Function.update_self]
    exact growsBy_call _ _
  · simp only [callOne, if_neg hn, Function.update_of_ne (Ne.symm hn)]
    exact .refl _

/-- A table grows by what it has been asked to intern. -/
theorem growsBy_runAll (tables : Nat → LabelTable) (calls : List (Nat × Call)) (n : Nat) :
    (tables n).GrowsBy (interned n calls) ((runAll tables calls).1 n) := by
  unfold runAll
  induction calls generalizing tables with
  | nil => exact .refl _
  | cons c calls ih =>
      rw [interned_cons]
      exact (growsBy_callOne tables c n).trans (ih (callOne tables c).1)

theorem callOne_of_interned?_eq_none (h : c.2.interned? = none) (tables : Nat → LabelTable) :
    (callOne tables c).1 = tables := by
  unfold callOne
  rw [call_of_interned?_eq_none h, Function.update_eq_self]

theorem id_runAll_empty (calls : List (Nat × Call)) (n : Nat) :
    ((runAll empty calls).1 n).id = n :=
  (growsBy_runAll empty calls n).id_eq

theorem mem_texts_runAll_empty : s ∈ ((runAll empty calls).1 n).texts ↔ s ∈ interned n calls := by
  rw [(growsBy_runAll empty calls n).mem_iff]
  exact or_iff_right (List.not_mem_nil)

theorem contains_runAll_empty (calls : List (Nat × Call)) (n : Nat) (s : String) :
    ((runAll empty calls).1 n).contains s = decide (s ∈ interned n calls) := by
  rw [Bool.eq_iff_iff, decide_eq_true_iff, ← mem_texts_runAll_empty]
  exact List.contains_iff_mem

theorem size_runAll_empty (calls : List (Nat × Call)) (n : Nat) :
    ((runAll empty calls).1 n).size = (interned n calls).dedup.length := by
  rw [(growsBy_runAll empty calls n).size_eq, List.filter_eq_self.mpr (by simp [empty])]
  exact Nat.zero_add _

theorem getElem?_answers_runAll (hc : calls[i]? = some c) : (runAll empty calls).2[i]? =
    some (((runAll empty (calls.take i)).1 c.1).call c.2).2 := by
  unfold runAll
  rw [Calls.getElem?_answers, hc]
  rfl

/-- A label that was given in a run stands at its end. -/
theorem standsIn_runAll (hc : calls[i]? = some c)
    (ha : (runAll empty calls).2[i]?.bind Answer.label? = some a) :
    a.StandsIn ((runAll empty calls).1 c.1) ∧ c.2.text? = some a.text := by
  rw [getElem?_answers_runAll hc] at ha
  obtain ⟨hstands, htext⟩ := standsIn_of_call ha
  refine ⟨?_, htext⟩
  have hthen : ((runAll empty (calls.take (i + 1))).1 c.1) =
      (((runAll empty (calls.take i)).1 c.1).call c.2).1 := by
    unfold runAll
    rw [Calls.state_take_succ hc]
    exact Function.update_self ..
  have hlater := growsBy_runAll (runAll empty (calls.take (i + 1))).1 (calls.drop (i + 1)) c.1
  rw [← hthen] at hstands
  unfold runAll at hlater hstands ⊢
  rw [Calls.state_drop] at hlater
  exact hlater.standsIn hstands

theorem exists_of_label (ha : (runAll empty calls).2[i]?.bind Answer.label? = some a) :
    ∃ c, calls[i]? = some c ∧ a.table = c.1 ∧ c.2.text? = some a.text ∧
      a.StandsIn ((runAll empty calls).1 a.table) := by
  have hi : i < calls.length := by
    by_contra hge
    have hnone : (runAll empty calls).2[i]? = none := by
      rw [List.getElem?_eq_none_iff]
      exact Calls.length_answers.trans_le (Nat.not_lt.mp hge)
    rw [hnone] at ha
    cases ha
  have hc := List.getElem?_eq_getElem hi
  obtain ⟨hstands, htext⟩ := standsIn_runAll hc ha
  have htable : a.table = calls[i].1 := hstands.1.trans (id_runAll_empty ..)
  exact ⟨_, hc, htable, htext, htable ▸ hstands⟩

/-- What is true of tables that began without entries, and of the answers that
they have given, after calls. The label that an answer gives, if it gives one,
is `Answer.label?`. -/
structure IsRecordOf (calls : List (Nat × Call)) (tables : Nat → LabelTable)
    (answers : List Answer) : Prop where
  length_eq : answers.length = calls.length
  /-- The number of texts is that of the different ones interned so far. -/
  size : ∀ {i n : Nat}, calls[i]? = some (n, .size) →
    answers[i]? = some (.size (interned n (calls.take i)).dedup.length)
  contains : ∀ {i n : Nat} {s : String}, calls[i]? = some (n, .contains s) →
    answers[i]? = some (.contained (decide (s ∈ interned n (calls.take i))))
  find : ∀ {i n : Nat} {s : String}, calls[i]? = some (n, .find s) →
    ∃ found, answers[i]? = some (.found found) ∧
      (found.isSome = true ↔ s ∈ interned n (calls.take i))
  intern : ∀ {i n : Nat} {s : String}, calls[i]? = some (n, .intern s) →
    ∃ a, answers[i]? = some (.interned a)
  /-- Only interning changes a table. Without one of the other calls the tables
  and the other answers are the same. -/
  query_idle : ∀ {before after : List (Nat × Call)} {c : Nat × Call},
    calls = before ++ c :: after → c.2.interned? = none →
      runAll empty (before ++ after) = (tables, answers.eraseIdx before.length)
  /-- A label spells the text that it was asked for by, and is of the table that
  was asked. -/
  spells : ∀ {i : Nat} {a : Label}, answers[i]?.bind Answer.label? = some a →
    ∃ c, calls[i]? = some c ∧ a.table = c.1 ∧ c.2.text? = some a.text
  /-- Labels that were given at any two times are one entry exactly if they are
  of one table and have one text. -/
  sameEntry_iff : ∀ {i j : Nat} {a b : Label}, answers[i]?.bind Answer.label? = some a →
    answers[j]?.bind Answer.label? = some b →
      (a.sameEntry b = true ↔ a.table = b.table ∧ a.text = b.text)
  /-- Labels are equal exactly if they have one text, whatever their tables. -/
  same_iff : ∀ {i j : Nat} {a b : Label}, answers[i]?.bind Answer.label? = some a →
    answers[j]?.bind Answer.label? = some b → (a.same b = true ↔ a.text = b.text)

theorem sameEntry_iff_of_runAll {j : Nat}
    (ha : (runAll empty calls).2[i]?.bind Answer.label? = some a)
    (hb : (runAll empty calls).2[j]?.bind Answer.label? = some b) :
    a.sameEntry b = true ↔ a.table = b.table ∧ a.text = b.text := by
  obtain ⟨-, -, -, -, hstands⟩ := exists_of_label ha
  obtain ⟨-, -, -, -, hstands'⟩ := exists_of_label hb
  by_cases htable : a.table = b.table
  · rw [and_iff_right htable, hstands.sameEntry_iff (htable ▸ hstands')]
  · simp [Label.sameEntry, htable]

theorem isRecordOf_runAll (calls : List (Nat × Call)) :
    IsRecordOf calls (runAll empty calls).1 (runAll empty calls).2 where
  length_eq := Calls.length_answers
  size {i n} hc := by
    rw [getElem?_answers_runAll hc, ← size_runAll_empty]
    rfl
  contains {i n s} hc := by
    rw [getElem?_answers_runAll hc, ← contains_runAll_empty]
    rfl
  find {i n s} hc := by
    refine ⟨_, getElem?_answers_runAll hc, ?_⟩
    rw [isSome_find?_iff, mem_texts_runAll_empty]
  intern {i n s} hc := ⟨_, getElem?_answers_runAll hc⟩
  query_idle {before after c} hcalls hc := by
    subst hcalls
    exact Calls.run_eraseIdx (callOne_of_interned?_eq_none hc)
  spells {i a} ha := by
    obtain ⟨c, hc, htable, htext, -⟩ := exists_of_label ha
    exact ⟨c, hc, htable, htext⟩
  sameEntry_iff ha hb := sameEntry_iff_of_runAll ha hb
  same_iff {i j a b} ha hb := by
    have hentry := sameEntry_iff_of_runAll ha hb
    unfold Label.same
    rw [Bool.or_eq_true, beq_iff_eq, hentry]
    exact or_iff_right_of_imp And.right

/-! ## Callers beside each other -/

/-- Tables with callers who visit them. A caller whose look-up has missed is
going to add the text to the table with a number. The calls that have ended
stand in the order in which they did, with their answers. -/
structure Visitors where
  tables : Nat → LabelTable
  missed : Nat → Option (Nat × String)
  calls : List (Nat × Call)
  answers : List Answer

namespace Visitors

def start : Visitors := ⟨empty, fun _ => none, [], []⟩

/-- One visit of a caller, from when it has a table for itself until it leaves
it. The caller goes on with what its last visit has begun, or begins a call. -/
def visit (v : Visitors) (caller : Nat) (c : Nat × Call) : Visitors :=
  match v.missed caller with
  | some (n, s) =>
    let (t, a) := (v.tables n).add s
    { tables := Function.update v.tables n t
      missed := Function.update v.missed caller none
      calls := v.calls ++ [(n, .intern s)]
      answers := v.answers ++ [.interned a] }
  | none =>
    match c with
    | (n, .intern s) =>
      match (v.tables n).find? s with
      | some a => { v with calls := v.calls ++ [c], answers := v.answers ++ [.interned a] }
      | none => { v with missed := Function.update v.missed caller (some (n, s)) }
    | c =>
      let (tables, answer) := callOne v.tables c
      { v with tables, calls := v.calls ++ [c], answers := v.answers ++ [answer] }

/-- After the visits of a schedule, which says who comes and what for. -/
def run (v : Visitors) (schedule : List (Nat × Nat × Call)) : Visitors :=
  schedule.foldl (fun v (caller, c) => v.visit caller c) v

/-- What a visit can be: it ends a call, whose answer is that of the tables as
they are now, or it is a look-up that misses. -/
inductive Visits (v : Visitors) : Visitors → Prop where
  | ends (c : Nat × Call) (missed : Nat → Option (Nat × String)) :
      Visits v ⟨(callOne v.tables c).1, missed, v.calls ++ [c],
        v.answers ++ [(callOne v.tables c).2]⟩
  | misses (missed : Nat → Option (Nat × String)) : Visits v { v with missed }

theorem visits_visit (v : Visitors) (caller : Nat) (c : Nat × Call) :
    Visits v (v.visit caller c) := by
  unfold visit
  split
  · next n s hmissed =>
    rw [add_eq_intern]
    exact .ends (n, .intern s) _
  · split
    · next n s =>
      split
      · next a hfound =>
        have hends := Visits.ends (v := v) (n, .intern s) v.missed
        simp only [callOne, call, intern_of_find?_eq_some hfound, Function.update_eq_self] at hends
        exact hends
      · exact .misses _
    · exact .ends _ _

/-- The tables and the answers are those of a run of the calls that have
ended. -/
def IsLinear (v : Visitors) : Prop := runAll empty v.calls = (v.tables, v.answers)

theorem isLinear_start : start.IsLinear := rfl

theorem IsLinear.visit {v : Visitors} (h : v.IsLinear) (caller : Nat) (c : Nat × Call) :
    (v.visit caller c).IsLinear := by
  have hvisits := visits_visit v caller c
  generalize v.visit caller c = w at *
  cases hvisits with
  | ends c missed =>
      unfold IsLinear runAll at h ⊢
      rw [Calls.run_append, h]
      rfl
  | misses missed => exact h

theorem IsLinear.run {v : Visitors} (h : v.IsLinear) (schedule : List (Nat × Nat × Call)) :
    (v.run schedule).IsLinear := by
  unfold Visitors.run
  induction schedule generalizing v with
  | nil => exact h
  | cons visit schedule ih => exact ih (h.visit visit.1 visit.2)

end Visitors

/-- Tables that are called in any order keep an account of the texts that they
have been asked to intern, also where the visits of several callers
interleave. -/
theorem isRecordOf_visits :
    (∀ calls, IsRecordOf calls (runAll empty calls).1 (runAll empty calls).2) ∧
    ∀ schedule, let v := Visitors.start.run schedule
      IsRecordOf v.calls v.tables v.answers := by
  refine ⟨isRecordOf_runAll, fun schedule => ?_⟩
  have hlinear := Visitors.isLinear_start.run schedule
  have hrecord := isRecordOf_runAll (Visitors.start.run schedule).calls
  rw [hlinear] at hrecord
  exact hrecord

/-- Two callers look for a new text before one of them has added it. Both get
the one entry. -/
example :
    (Visitors.start.run [(0, 0, .intern "Ss"), (1, 0, .intern "Ss"), (0, 0, .size), (1, 0, .size),
      (1, 0, .size)]).answers = [.interned ⟨0, 0, "Ss"⟩, .interned ⟨0, 0, "Ss"⟩, .size 1] := by
  decide

end LabelTable

end LinkParse
