import Calculator.Proofs.Scanning
import Calculator.Proofs.SessionSteps

/-! The history of a session tells the truth. Each calculation in it has, in one of the two units of
angle, a finite value whose text is its result; nothing a session does to its history breaks this. So
a calculation replays as it was recorded: its expression is no blank text, which a buffer would not
hold, and in its unit of angle the preview is its result. -/

namespace Calculator

/-- A blank text lacks an operand. -/
theorem evaluate_of_isAllBlank {s : Text} (angle : Angle) (h : s.isAllBlank = true) :
    evaluate angle s = .incomplete := by
  have hScan : Token.scan s = .ok [] := Token.scans_of_isAllBlank h 0
  unfold evaluate evalText parseText
  rw [hScan]
  rfl

theorem Buffer.load_of_value {angle : Angle} {s : Text} {x : Binary64}
    (h : evaluate angle s = .value x) : Buffer.load s = s := by
  cases hBlank : s.isAllBlank with
  | false => rw [Buffer.load, if_neg (by simp [hBlank])]
  | true =>
    rw [evaluate_of_isAllBlank angle hBlank] at h
    cases h

/-- In the unit of angle, the expression has a finite value whose text is the result. -/
def Calculation.Holds (c : Calculation) (angle : Angle) : Prop :=
  ∃ x, x.isFinite = true ∧ evaluate angle c.expression = .value x ∧ c.result = Display.text x

namespace Session

variable {s s' : Session}

/-- Each calculation in the history holds in one of the units of angle. -/
def Truthful (s : Session) : Prop := ∀ c ∈ s.history.entries, ∃ angle, c.Holds angle

theorem truthful_of_empty (h : s.history = .empty) : Truthful s := by
  intro c hc
  rw [h] at hc
  cases hc

theorem Truthful.commit (h : Truthful s) : Truthful s.commit := by
  cases hValue : s.outcome.value? with
  | none =>
    rw [commit_of_failure hValue]
    exact h
  | some x =>
    have hOutcome := Outcome.value?_eq_some_iff.mp hValue
    rw [commit_of_value hOutcome]
    intro c hc
    rw [History.entries_record] at hc
    rcases List.mem_cons.mp (List.mem_of_mem_take hc) with rfl | hOld
    · exact ⟨s.angle, x, isFinite_of_outcome hOutcome, hOutcome, rfl⟩
    · exact h c hOld

theorem Truthful.step (h : Truthful s) (hStep : Step s s') : Truthful s' := by
  cases hStep with
  | commit => exact h.commit
  | clearHistory => exact truthful_of_empty rfl
  | restore =>
    intro c hc
    exact h c (List.mem_of_mem_take hc)
  | stay | edit | refuse | clear | setAngle | setTheme | setSecond | setMemory => exact h

theorem truthful_performAll (operations : List Operation) : Truthful (new.performAll operations) :=
  performAll_invariant Truthful.step (truthful_of_empty rfl) operations

/-- The replay of a calculation that holds puts its expression in the buffer and, in the unit of
angle, shows its result. -/
theorem exists_replay? {index : Nat} {c : Calculation} {angle : Angle}
    (hEntry : s.history.get? index = some c) (hHolds : c.Holds angle) :
    ∃ next, s.replay? index = some next ∧ next.input = c.expression ∧
      (s.angle = angle → next.preview = some c.result) := by
  obtain ⟨x, -, hValue, hResult⟩ := hHolds
  refine ⟨s.load c.expression, by rw [replay?, hEntry]; rfl, Buffer.load_of_value hValue, ?_⟩
  rintro rfl
  have hOutcome : (s.load c.expression).outcome = .value x := by
    show evaluate s.angle (Buffer.load c.expression) = .value x
    rw [Buffer.load_of_value hValue, hValue]
  show (s.load c.expression).outcome.value?.map Display.text = some c.result
  rw [hOutcome, hResult]
  rfl

/-- Whatever is done to a new session, each calculation in its history has a finite value in one of
the units of angle, and its result is the text of that value. At every index of the history where the
calculation stands, it can be replayed: the buffer is its expression to the letter, and the preview is
its result if that unit of angle is set. -/
theorem history_is_true (operations : List Operation) :
    let s := new.performAll operations
    ∀ c ∈ s.history.entries, ∃ angle x, x.isFinite = true ∧
      evaluate angle c.expression = .value x ∧ c.result = Display.text x ∧
      ∀ index, s.history.get? index = some c →
        ∃ next, s.replay? index = some next ∧ next.input = c.expression ∧
          (s.angle = angle → next.preview = some c.result) := by
  intro s c hc
  obtain ⟨angle, hHolds⟩ := truthful_performAll operations c hc
  obtain ⟨x, hFinite, hValue, hResult⟩ := id hHolds
  exact ⟨angle, x, hFinite, hValue, hResult, fun index hEntry => exists_replay? hEntry hHolds⟩

/-- A third, typed between blanks and committed in degrees, is replayed after a restart. -/
theorem history_is_true_of_third :
    let s := new.performAll [.toggleAngle, .load " 1/3 ".toList, .commit, .toggleAngle, .restore]
    let c : Calculation := ⟨" 1/3 ".toList, "0.3333333333".toList⟩
    c ∈ s.history.entries ∧
      ∃ next, s.replay? 0 = some next ∧ next.input = " 1/3 ".toList := by
  intro s c
  have hEntry : s.history.get? 0 = some c := by decide +kernel
  have hMem : c ∈ s.history.entries := List.mem_of_getElem? hEntry
  obtain ⟨_, _, -, -, -, hReplay⟩ := history_is_true _ c hMem
  obtain ⟨next, hNext, hInput, -⟩ := hReplay 0 hEntry
  exact ⟨hMem, next, hNext, hInput⟩

end Session

end Calculator
