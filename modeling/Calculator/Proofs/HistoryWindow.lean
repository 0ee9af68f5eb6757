import Calculator.Proofs.SessionSteps

/-! The history as a window on a log without a limit. Every commit of a buffer that has a value
writes its calculation on top of the log, and clearing the history wipes the log; nothing else a
session does touches either. What a session keeps is the top of the log, as much of it as the limit
allows. -/

namespace Calculator

/-- Whether the operation commits the buffer. -/
def Operation.isCommit : Operation → Bool
  | press .equals | commit => true
  | _ => false

/-- The window on a log moves along when a calculation is written on top of the log. -/
theorem History.entries_record_of_take {h : History} {log : List Calculation}
    (hWindow : h.entries = log.take historyLimit) (c : Calculation) :
    (h.record c).entries = (c :: log).take historyLimit := by
  rw [entries_record, hWindow, historyLimit, List.take_succ_cons, List.take_succ_cons,
    List.take_take]
  rfl

namespace Session

variable {s : Session} {operation : Operation} {operations : List Operation}
  {log : List Calculation}

/-- The calculation that an operation commits: the buffer and the text of its value, if the
operation is a commit and the buffer has a value. -/
def calculation? (s : Session) (operation : Operation) : Option Calculation :=
  if operation.isCommit then s.outcome.value?.map fun x => ⟨s.input, Display.text x⟩ else none

/-- The calculations that a run of operations commits, the oldest first. -/
def calculations (s : Session) : List Operation → List Calculation
  | [] => []
  | operation :: later =>
    (s.calculation? operation).toList ++ (s.perform operation).calculations later

/-! ### What one operation does to the history -/

theorem history_typeDigit (s : Session) (c : Char) : (s.typeDigit c).history = s.history := by
  unfold typeDigit
  split <;> rfl

theorem history_memoryAdd (s : Session) : s.memoryAdd.history = s.history := by
  obtain ⟨x, hMemory⟩ := s.exists_memoryAdd_eq
  rw [hMemory]

theorem history_memorySubtract (s : Session) : s.memorySubtract.history = s.history := by
  obtain ⟨x, hMemory⟩ := s.exists_memorySubtract_eq
  rw [hMemory]

theorem history_memoryRecall (s : Session) : s.memoryRecall.history = s.history := by
  unfold memoryRecall
  split <;> rfl

theorem history_replay (s : Session) (index : Nat) :
    ((s.replay? index).getD s).history = s.history := by
  unfold replay?
  cases s.history.get? index <;> rfl

theorem history_commit (s : Session) :
    s.commit.history =
      match s.outcome.value? with
      | some x => s.history.record ⟨s.input, Display.text x⟩
      | none => s.history := by
  cases hValue : s.outcome.value? with
  | some x => rw [commit_of_value (Outcome.value?_eq_some_iff.mp hValue)]
  | none => rw [commit_of_failure hValue]

theorem history_press (s : Session) {key : Key} (h : key ≠ .equals) :
    (s.press key).history = s.history := by
  cases key with
  | equals => exact absurd rfl h
  | digit c => exact history_typeDigit s c
  | memoryAdd => exact history_memoryAdd s
  | memorySubtract => exact history_memorySubtract s
  | memoryRecall => exact history_memoryRecall s
  | _ => rfl

/-- An operation that neither commits nor clears the history keeps it. A restored session keeps it
because what is stored is no longer than what is kept. -/
theorem history_perform_of_not_isCommit (hCommit : operation.isCommit = false)
    (hClear : operation ≠ .clearHistory) : (s.perform operation).history = s.history := by
  cases operation with
  | clearHistory => exact absurd rfl hClear
  | commit => cases hCommit
  | press key => exact history_press s (by rintro rfl; cases hCommit)
  | digit c => exact history_typeDigit s c
  | memoryAdd => exact history_memoryAdd s
  | memorySubtract => exact history_memorySubtract s
  | memoryRecall => exact history_memoryRecall s
  | replay index => exact history_replay s index
  | restore => exact s.history.ofEntries_entries
  | _ => rfl

theorem perform_of_isCommit (h : operation.isCommit = true) : s.perform operation = s.commit := by
  cases operation with
  | commit => rfl
  | press key => cases key <;> first | rfl | cases h
  | _ => cases h

/-- What an operation other than clearing does to the history is to record what it commits. -/
theorem history_perform (h : operation ≠ .clearHistory) :
    (s.perform operation).history = (s.calculation? operation).elim s.history s.history.record := by
  cases hCommit : operation.isCommit with
  | false =>
    rw [history_perform_of_not_isCommit hCommit h, calculation?, hCommit]
    rfl
  | true =>
    rw [perform_of_isCommit hCommit, history_commit, calculation?, hCommit]
    cases s.outcome.value? <;> rfl

/-! ### What a run does to the history -/

/-- An operation other than clearing moves the window along with the log. -/
theorem entries_perform (hClear : operation ≠ .clearHistory)
    (h : s.history.entries = log.take historyLimit) :
    (s.perform operation).history.entries =
      ((s.calculation? operation).toList ++ log).take historyLimit := by
  rw [history_perform hClear]
  cases s.calculation? operation with
  | none => exact h
  | some c => exact History.entries_record_of_take h c

/-- A run without clearing leaves the window on the log with the run's calculations on top. -/
theorem entries_performAll (hClear : .clearHistory ∉ operations)
    (h : s.history.entries = log.take historyLimit) :
    (s.performAll operations).history.entries =
      ((s.calculations operations).reverse ++ log).take historyLimit := by
  induction operations generalizing s log with
  | nil => exact h
  | cons operation later ih =>
    rw [List.mem_cons, not_or] at hClear
    have hNext := entries_perform (Ne.symm hClear.1) h
    have hLater := ih hClear.2 hNext
    have hTop : (s.calculation? operation).toList.reverse = (s.calculation? operation).toList := by
      cases s.calculation? operation <;> rfl
    rw [calculations, List.reverse_append, hTop, List.append_assoc]
    exact hLater

/-- The history after a run from a new session, or from one restored from a snapshot, is the first
ten calculations of this list: those of the commits since the history was last cleared, the newest
first, and behind them those of the snapshot if it never was cleared. No operation but clearing and
the commit of a value changes the history. -/
theorem history_is_window (snapshot? : Option Snapshot) (operations : List Operation) :
    let start := (snapshot?.map ofSnapshot).getD new
    let stored := (snapshot?.map Snapshot.history).getD []
    let s := start.performAll operations
    (.clearHistory ∉ operations →
      s.history.entries = ((start.calculations operations).reverse ++ stored).take 10) ∧
    (∀ before after, operations = before ++ .clearHistory :: after → .clearHistory ∉ after →
      s.history.entries =
        ((start.performAll before).clearHistory.calculations after).reverse.take 10) ∧
    ∀ operation, operation ≠ .clearHistory → s.calculation? operation = none →
      (s.perform operation).history = s.history := by
  intro start stored s
  refine ⟨fun hClear => ?_, ?_, fun operation hClear hNone => ?_⟩
  · have hStart : start.history.entries = stored.take historyLimit := by
      cases snapshot? <;> rfl
    exact entries_performAll hClear hStart
  · rintro before after rfl hClear
    have hCleared : (start.performAll before).clearHistory.history.entries =
        ([] : List Calculation).take historyLimit := rfl
    have hAfter := entries_performAll hClear hCleared
    rw [List.append_nil] at hAfter
    have hRun : s = (start.performAll before).clearHistory.performAll after :=
      List.foldl_append ..
    rw [hRun]
    exact hAfter
  · rw [history_perform hClear, hNone]
    rfl

/-- Eleven stored calculations, a commit that fails and two that do not; then a new history. -/
theorem history_is_window_of_eleven :
    let one : Calculation := ⟨['1'], ['1']⟩
    let snapshot : Snapshot :=
      ⟨.radians, .light, ['0'], List.replicate 9 one ++ [⟨['3'], ['3']⟩, one]⟩
    let commits : List Operation :=
      [.load "1/0".toList, .commit, .load "1+1".toList, .commit, .press .equals, .replay 5]
    let kept := (ofSnapshot snapshot).performAll commits
    let anew := (ofSnapshot snapshot).performAll (commits ++ .clearHistory :: commits)
    kept.history.entries =
        [⟨['2'], ['2']⟩, ⟨"1+1".toList, ['2']⟩] ++ List.replicate 8 one ∧
      anew.history.entries = [⟨['2'], ['2']⟩, ⟨"1+1".toList, ['2']⟩] := by
  intro one snapshot commits kept anew
  have hClear : .clearHistory ∉ commits := by simp [commits]
  obtain ⟨hKept, -, -⟩ := history_is_window (some snapshot) commits
  obtain ⟨-, hAnew, -⟩ := history_is_window (some snapshot) (commits ++ .clearHistory :: commits)
  exact ⟨(hKept hClear).trans (by decide +kernel),
    (hAnew commits commits rfl hClear).trans (by decide +kernel)⟩

end Session

end Calculator
