import Calculator.Proofs.SnapshotText

/-! The calls of a store. A file that nobody else touches and the memory answer every sequence of
calls in the same way: a load finds what was saved last, and nothing before the first save. -/

namespace Calculator

inductive StoreCall where
  | load
  | save (s : Snapshot)
deriving DecidableEq

namespace StoreCall

def saved? : StoreCall → Option Snapshot
  | load => none
  | save s => some s

def lastSaved? (calls : List StoreCall) : Option Snapshot := (calls.filterMap saved?).getLast?

/-- What the loads find, one after another, if every load finds what was saved last. -/
def findings (saved : Option Snapshot) : List StoreCall → List (Option Snapshot)
  | [] => []
  | load :: calls => saved :: findings saved calls
  | save s :: calls => findings (some s) calls

theorem lastSaved?_cons_save (s : Snapshot) (calls : List StoreCall) (saved : Option Snapshot) :
    (lastSaved? (save s :: calls)).or saved = (lastSaved? calls).or (some s) := by
  have hSaved : (save s :: calls).filterMap saved? = s :: calls.filterMap saved? := rfl
  rw [lastSaved?, hSaved, List.getLast?_cons, lastSaved?]
  cases (calls.filterMap saved?).getLast? with
  | none => rfl
  | some last => rfl

theorem findings_append (saved : Option Snapshot) (calls later : List StoreCall) :
    findings saved (calls ++ later) =
      findings saved calls ++ findings ((lastSaved? calls).or saved) later := by
  induction calls generalizing saved with
  | nil => rfl
  | cons call calls ih =>
    cases call with
    | load => exact congrArg (saved :: ·) (ih saved)
    | save s =>
      rw [lastSaved?_cons_save]
      exact ih (some s)

theorem length_findings (saved : Option Snapshot) (calls : List StoreCall) :
    (findings saved calls).length = calls.count load := by
  induction calls generalizing saved with
  | nil => rfl
  | cons call calls ih =>
    cases call with
    | load => rw [findings, List.length_cons, ih, List.count_cons_self]
    | save s => rw [findings, ih, List.count_cons_of_ne (by simp)]

end StoreCall

namespace Store

open StoreCall (findings lastSaved?)

variable {store : Store} {saved : Option Snapshot}

/-- Makes the calls one after another and gives what the loads find. The first call that fails ends
them. -/
def answer (store : Store) : List StoreCall → Except StoreError (List (Option Snapshot))
  | [] => .ok []
  | .load :: calls => do
    let found ← store.load
    let later ← store.answer calls
    pure (found :: later)
  | .save s :: calls => do
    let store ← store.save s
    store.answer calls

/-- The store can be saved to, and a load finds `saved`. -/
structure Holds (store : Store) (saved : Option Snapshot) : Prop where
  load : store.load = .ok saved
  saves : store.Saves

theorem holds_file_vacant : Holds (file .vacant) none := ⟨rfl, fun _ => ⟨_, rfl⟩⟩

theorem holds_memory (saved : Option Snapshot) : Holds (memory saved) saved :=
  ⟨rfl, fun _ => ⟨_, rfl⟩⟩

theorem Holds.save (h : Holds store saved) (s : Snapshot) :
    ∃ store', store.save s = .ok store' ∧ Holds store' (some s) := by
  obtain ⟨store', hSave⟩ := h.saves s
  exact ⟨store', hSave, load_of_save hSave, saves_of_save hSave⟩

/-- Every load of a store that can be saved to finds what was saved last. -/
theorem Holds.answer (h : Holds store saved) (calls : List StoreCall) :
    store.answer calls = .ok (findings saved calls) := by
  induction calls generalizing store saved with
  | nil => rfl
  | cons call calls ih =>
    cases call with
    | load =>
      rw [Store.answer, h.load, ih h]
      rfl
    | save s =>
      obtain ⟨store', hSave, hHolds⟩ := h.save s
      rw [Store.answer, hSave]
      exact ih hHolds

/-- A file that is absent at first and the memory answer all calls, and both in the same way: each
load finds nothing before the first save, and afterwards the snapshot that was saved last. -/
theorem file_agrees_with_memory (calls : List StoreCall) :
    ∃ found, (file .vacant).answer calls = .ok found ∧ (memory none).answer calls = .ok found ∧
      found.length = calls.count .load ∧
      ∀ before after, calls = before ++ .load :: after →
        found[before.count .load]? = some (lastSaved? before) := by
  refine ⟨findings none calls, holds_file_vacant.answer calls, (holds_memory none).answer calls,
    StoreCall.length_findings none calls, ?_⟩
  rintro before after rfl
  have hLength := StoreCall.length_findings none before
  rw [StoreCall.findings_append, List.getElem?_append_right (by omega), hLength, Nat.sub_self,
    Option.or_none]
  rfl

/-- A snapshot whose texts have a quote, a backslash, a control character and a character beyond
ASCII. -/
theorem file_agrees_with_memory_of_escapes :
    let s : Snapshot := ⟨.degrees, .dark, "\"\\".toList, [⟨"2×3".toList, ['\x07']⟩]⟩
    (file .vacant).answer [.load, .save s, .load] = .ok [none, some s] := by
  intro s
  obtain ⟨found, hFile, -, hLength, hFound⟩ :=
    file_agrees_with_memory [.load, .save s, .load]
  have hFirst : found[0]? = some none := hFound [] [.save s, .load] rfl
  have hSecond : found[1]? = some (some s) := hFound [.load, .save s] [] rfl
  rw [hFile]
  match found, hLength, hFirst, hSecond with
  | [_, _], _, rfl, rfl => rfl

end Store

end Calculator
