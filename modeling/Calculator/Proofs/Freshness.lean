import Calculator.Proofs.SessionSteps

/-! What a session shows is never stale: the preview is the text of the value that the buffer has
now, or an error where it has none, and the result of the last commit is the buffer. So a commit
gives what the preview promised. -/

namespace Calculator.Session

variable {s s' : Session}

/-- The preview and the result of the last commit belong to the buffer. -/
structure Fresh (s : Session) : Prop where
  preview : ∀ t, s.preview = some t →
    (∃ x, s.outcome = .value x ∧ t = Display.text x) ∨ t = errorText ∧ ∀ x, s.outcome ≠ .value x
  committed : ∀ r, s.committed = some r → s.input = r

theorem fresh_of_none (hPreview : s.preview = none) (hCommitted : s.committed = none) :
    Fresh s := by
  constructor
  · simp [hPreview]
  · simp [hCommitted]

theorem fresh_refresh (hCommitted : ∀ r, s.committed = some r → s.input = r) : Fresh s.refresh := by
  refine ⟨fun t ht => .inl ?_, hCommitted⟩
  rw [outcome_refresh]
  cases hOutcome : s.outcome with
  | value x =>
    simp only [refresh, hOutcome, Outcome.value?, Option.map_some, Option.some.injEq] at ht
    exact ⟨x, rfl, ht.symm⟩
  | incomplete => simp [refresh, hOutcome, Outcome.value?] at ht
  | malformed reason => simp [refresh, hOutcome, Outcome.value?] at ht
  | domain => simp [refresh, hOutcome, Outcome.value?] at ht

theorem fresh_edit (s : Session) (input : Text) : Fresh (s.edit input) :=
  fresh_refresh (by simp)

theorem Fresh.commit (h : Fresh s) : Fresh s.commit := by
  cases hValue : s.outcome.value? with
  | some x =>
    rw [commit_of_value (Outcome.value?_eq_some_iff.mp hValue)]
    constructor
    · simp
    · simp
  | none =>
    rw [commit_of_failure hValue]
    refine ⟨fun t ht => .inr ⟨by simpa using ht.symm, fun x hx => ?_⟩, h.committed⟩
    have hSame : s.outcome = .value x := hx
    simp [hSame, Outcome.value?] at hValue

theorem Fresh.step (h : Fresh s) (hStep : Step s s') : Fresh s' := by
  cases hStep with
  | stay => exact h
  | edit input => exact fresh_edit s input
  | refuse => exact ⟨h.preview, by simp⟩
  | clear => exact fresh_of_none rfl rfl
  | commit => exact h.commit
  | setAngle angle => exact fresh_refresh h.committed
  | setTheme theme => exact ⟨h.preview, h.committed⟩
  | setSecond second => exact ⟨h.preview, h.committed⟩
  | setMemory _ => exact ⟨h.preview, h.committed⟩
  | clearHistory => exact ⟨h.preview, h.committed⟩
  | restore => exact fresh_of_none rfl rfl

theorem Reachable.fresh (h : Reachable s) : Fresh s :=
  h.invariant (fresh_of_none rfl rfl) (fun _ => fresh_of_none rfl rfl) Fresh.step

/-- A commit of a buffer with a value makes its text the buffer and the newest calculation. -/
theorem commit_spec {x : Binary64} (h : s.outcome = .value x) :
    s.commit.input = Display.text x ∧ s.commit.committed = some (Display.text x) ∧
      s.commit.history.get? 0 = some ⟨s.input, Display.text x⟩ := by
  rw [commit_of_value h]
  exact ⟨rfl, rfl, rfl⟩

theorem preview_is_current (h : Reachable s) :
    (∀ t, s.preview = some t →
      (∃ x, evaluate s.angle s.input = .value x ∧ t = Display.text x) ∨
        t = errorText ∧ ∀ x, evaluate s.angle s.input ≠ .value x) ∧
    (∀ r, s.committed = some r → s.input = r) ∧
    ∀ t, s.preview = some t → t ≠ errorText →
      ∃ x, evaluate s.angle s.input = .value x ∧ s.commit.input = t ∧
        s.commit.history.get? 0 = some ⟨s.input, t⟩ := by
  have hFresh := h.fresh
  refine ⟨hFresh.preview, hFresh.committed, fun t ht hNoError => ?_⟩
  rcases hFresh.preview t ht with ⟨x, hValue, rfl⟩ | ⟨hError, -⟩
  · obtain ⟨hInput, -, hNewest⟩ := commit_spec hValue
    exact ⟨x, hValue, hInput, hNewest⟩
  · exact absurd hError hNoError

/-- Pressing `2 × 3` shows a `6`, and a commit makes it the buffer. -/
theorem preview_is_current_of_product :
    ∃ s : Session, Reachable s ∧ s.preview = some ['6'] ∧ ['6'] ≠ errorText ∧
      s.commit.input = ['6'] ∧ s.commit.history.get? 0 = some ⟨['2', '*', '3'], ['6']⟩ := by
  have hReachable : Reachable (new.performAll [.digit '2', .operator .mul, .digit '3']) :=
    Reachable.new.performAll _
  have hPreview : (new.performAll [.digit '2', .operator .mul, .digit '3']).preview = some ['6'] := by
    decide +kernel
  obtain ⟨-, -, hCommit⟩ := preview_is_current hReachable
  obtain ⟨-, -, hInput, hNewest⟩ := hCommit ['6'] hPreview (by decide)
  exact ⟨_, hReachable, hPreview, by decide, hInput, hNewest⟩

end Calculator.Session
