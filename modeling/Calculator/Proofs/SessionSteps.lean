import Calculator.Session.Operation

/-! The sessions that can be reached, and what one operation can do to a session. Every operation
edits the buffer, commits it, changes one setting, or starts anew from what is stored; an invariant
of all sessions is one that a new session, a stored one and these steps keep. -/

namespace Calculator.Session

variable {s : Session}

@[simp] theorem outcome_refresh (s : Session) : s.refresh.outcome = s.outcome := rfl

@[simp] theorem input_edit (s : Session) (input : Text) : (s.edit input).input = input := rfl

@[simp] theorem committed_edit (s : Session) (input : Text) : (s.edit input).committed = none := rfl

theorem isFinite_of_outcome {x : Binary64} (h : s.outcome = .value x) : x.isFinite = true := by
  unfold outcome evaluate Outcome.ofResult at h
  split at h
  · split at h
    · cases h
      assumption
    · cases h
  all_goals cases h

theorem commit_of_value {x : Binary64} (h : s.outcome = .value x) :
    s.commit = { s with
      input := Display.text x, preview := none, committed := some (Display.text x),
      history := s.history.record ⟨s.input, Display.text x⟩ } := by
  simp only [commit, h]

theorem commit_of_failure (h : s.outcome.value? = none) :
    s.commit = { s with preview := some errorText } := by
  unfold commit
  split
  · rename_i x hx
    simp [hx, Outcome.value?] at h
  · rfl

@[simp] theorem second_commit (s : Session) : s.commit.second = s.second := by
  unfold commit
  split <;> rfl

theorem store_eq (s : Session) (x : Binary64) :
    s.store x = { s with memory := if x.isFinite then x else s.memory } := by
  unfold store
  split <;> rfl

/-- Adding to the register and subtracting from it change nothing else. -/
theorem exists_memoryAdd_eq (s : Session) : ∃ x, s.memoryAdd = { s with memory := x } := by
  unfold memoryAdd
  split
  · exact ⟨_, store_eq s _⟩
  · exact ⟨s.memory, rfl⟩

theorem exists_memorySubtract_eq (s : Session) :
    ∃ x, s.memorySubtract = { s with memory := x } := by
  unfold memorySubtract
  split
  · exact ⟨_, store_eq s _⟩
  · exact ⟨s.memory, rfl⟩

/-- A session that some operations lead to from a new session or from a stored one. -/
inductive Reachable : Session → Prop
  | new : Reachable new
  | ofSnapshot (snapshot : Snapshot) : Reachable (ofSnapshot snapshot)
  | perform {s : Session} (operation : Operation) : Reachable s → Reachable (s.perform operation)

theorem Reachable.performAll (h : Reachable s) (operations : List Operation) :
    Reachable (s.performAll operations) := by
  induction operations generalizing s with
  | nil => exact h
  | cons operation operations ih => exact ih (h.perform operation)

theorem Reachable.press (h : Reachable s) (key : Key) : Reachable (s.press key) :=
  h.perform (.press key)

theorem Reachable.load (h : Reachable s) (expression : Text) : Reachable (s.load expression) :=
  h.perform (.load expression)

theorem Reachable.commit (h : Reachable s) : Reachable s.commit := h.perform .commit

/-- What one operation can do to a session. -/
inductive Step (s : Session) : Session → Prop
  | stay : Step s s
  | edit (input : Text) : Step s (s.edit input)
  | refuse : Step s { s with committed := none }
  | clear : Step s s.clear
  | commit : Step s s.commit
  | setAngle (angle : Angle) : Step s (s.setAngle angle)
  | setTheme (theme : Theme) : Step s { s with theme := theme }
  | setSecond (second : Bool) : Step s { s with second := second }
  | setMemory {x : Binary64} : x.isFinite = true → Step s { s with memory := x }
  | clearHistory : Step s s.clearHistory
  | restore : Step s (ofSnapshot s.snapshot)

namespace Step

theorem typeDigit (s : Session) (c : Char) : Step s (s.typeDigit c) := by
  unfold Session.typeDigit
  split
  · exact .edit _
  · exact .refuse

theorem store (s : Session) (x : Binary64) : Step s (s.store x) := by
  unfold Session.store
  split
  · rename_i h
    exact .setMemory h
  · exact .stay

theorem memoryAdd (s : Session) : Step s s.memoryAdd := by
  unfold Session.memoryAdd
  split
  · exact .store s _
  · exact .stay

theorem memorySubtract (s : Session) : Step s s.memorySubtract := by
  unfold Session.memorySubtract
  split
  · exact .store s _
  · exact .stay

theorem memoryRecall (s : Session) : Step s s.memoryRecall := by
  unfold Session.memoryRecall
  split
  · exact .stay
  · exact .edit _

theorem replay (s : Session) (index : Nat) : Step s ((s.replay? index).getD s) := by
  unfold Session.replay?
  cases s.history.get? index with
  | none => exact .stay
  | some calculation => exact .edit _

theorem press (s : Session) (key : Key) : Step s (s.press key) := by
  cases key with
  | digit c => exact typeDigit s c
  | operator op => exact .edit _
  | equals => exact .commit
  | allClear => exact .clear
  | delete => exact .edit _
  | toggleSign => exact .edit _
  | function f => exact .edit _
  | constant c => exact .edit _
  | openParen => exact .edit _
  | closeParen => exact .edit _
  | second => exact .setSecond _
  | memoryClear => exact .setMemory rfl
  | memoryAdd => exact memoryAdd s
  | memorySubtract => exact memorySubtract s
  | memoryRecall => exact memoryRecall s

theorem perform (s : Session) (operation : Operation) : Step s (s.perform operation) := by
  cases operation with
  | press key => exact press s key
  | digit c => exact typeDigit s c
  | operator op => exact .edit _
  | function f => exact .edit _
  | constant c => exact .edit _
  | paren c => exact .edit _
  | toggleSign => exact .edit _
  | delete => exact .edit _
  | clear => exact .clear
  | commit => exact .commit
  | setAngle angle => exact .setAngle angle
  | toggleAngle => exact .setAngle _
  | toggleTheme => exact .setTheme _
  | toggleSecond => exact .setSecond _
  | memoryClear => exact .setMemory rfl
  | memoryAdd => exact memoryAdd s
  | memorySubtract => exact memorySubtract s
  | memoryRecall => exact memoryRecall s
  | load expression => exact .edit _
  | replay index => exact replay s index
  | clearHistory => exact .clearHistory
  | restore => exact .restore

end Step

theorem Reachable.invariant {P : Session → Prop} (hNew : P Session.new)
    (hStored : ∀ snapshot, P (Session.ofSnapshot snapshot))
    (hStep : ∀ {s s'}, P s → Step s s' → P s') (h : Reachable s) : P s := by
  induction h with
  | new => exact hNew
  | ofSnapshot snapshot => exact hStored snapshot
  | perform operation _ ih => exact hStep ih (Step.perform _ operation)

theorem performAll_invariant {P : Session → Prop} (hStep : ∀ {s s'}, P s → Step s s' → P s')
    (h : P s) (operations : List Operation) : P (s.performAll operations) := by
  induction operations generalizing s with
  | nil => exact h
  | cons operation operations ih => exact ih (hStep h (Step.perform s operation))

end Calculator.Session
