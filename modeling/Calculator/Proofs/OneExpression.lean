import Calculator.Program
import Calculator.Proofs.PrintedTexts
import Calculator.Proofs.SessionSteps
import Calculator.Proofs.TrimmedText

/-! One expression, given on the command line or typed as a line. Either way it is evaluated in the
same unit of angle, and a finite value is printed as one line. Without such a value the program
fails and prints nothing, and the line prints an error and leaves the settings of the session as
they are. -/

namespace Calculator

variable {expression word result : Text}

namespace Session

variable {s s' : Session} {x : Binary64}

/-- The session after a commit of the expression with the result. -/
structure Commits (s s' : Session) (expression result : Text) : Prop where
  input : s'.input = result
  committed : s'.committed = some result
  history : s'.history = s.history.record ⟨expression, result⟩

structure KeepsSettings (s s' : Session) : Prop where
  history : s'.history = s.history
  memory : s'.memory = s.memory
  angle : s'.angle = s.angle
  theme : s'.theme = s.theme

theorem load_of_words (h : expression.words ≠ []) :
    s.load expression.trim = s.edit expression.trim := by
  rw [load, Buffer.load, if_neg (by simp [Text.isAllBlank_trim_of_words h])]

/-- The value of a loaded expression is that of the expression before it was trimmed. -/
theorem value?_outcome_load (h : expression.words ≠ []) :
    (s.load expression.trim).outcome.value? = (evaluate s.angle expression).value? := by
  rw [load_of_words h]
  exact value?_evaluate_trim s.angle expression

theorem commits_of_value (hWords : expression.words ≠ [])
    (h : (s.load expression.trim).outcome = .value x) :
    Commits s (s.load expression.trim).commit expression.trim (Display.text x) := by
  rw [commit_of_value h, load_of_words hWords]
  exact ⟨rfl, rfl, rfl⟩

theorem keepsSettings_of_failure (h : (s.load expression).outcome.value? = none) :
    KeepsSettings s (s.load expression).commit ∧ (s.load expression).commit.committed = none := by
  rw [commit_of_failure h]
  exact ⟨⟨rfl, rfl, rfl, rfl⟩, rfl⟩

end Session

open Session (Commits KeepsSettings)

namespace Console

variable {s : Session} {x : Binary64}

theorem line_inj {s t : Text} : line s = line t ↔ s = t := List.append_left_inj ['\n']

theorem handle_of_expression (hWord : expression.words.head? = some word)
    (hCommand : Command.ofWord? word = none) (s : Session) :
    handle s expression =
      ⟨(commit s expression.trim).1, (commit s expression.trim).2, true⟩ := by
  obtain ⟨words, hWords⟩ := List.head?_eq_some_iff.mp hWord
  simp only [handle, hWords, hCommand]

theorem commit_of_value (h : (s.load expression).outcome = .value x) :
    (commit s expression).2 = line (Display.text x) := by
  simp only [commit, h, Session.commit_of_value h]

/-- What has no value prints one line, which starts with an error. -/
theorem commit_of_failure (h : (s.load expression).outcome.value? = none) :
    ∃ t, '\n' ∉ t ∧ (commit s expression).2 = line ("Error".toList ++ t) := by
  cases hOutcome : (s.load expression).outcome with
  | value x =>
    rw [hOutcome] at h
    cases h
  | incomplete =>
    exact ⟨": incomplete expression".toList, by decide, by simp only [commit, hOutcome]; rfl⟩
  | malformed reason =>
    refine ⟨": ".toList ++ reason, ?_, by simp only [commit, hOutcome]; rfl⟩
    exact List.not_mem_append (by decide) (newline_notMem_reason hOutcome)
  | domain => exact ⟨[], by simp, by simp only [commit, hOutcome]; rfl⟩

end Console

namespace Run

variable {r : Run} {x : Binary64}

theorem evaluateOnce_of_value (h : (evaluate r.session.angle expression).value? = some x) :
    r.evaluateOnce expression = ⟨0, Console.line (Display.text x), [], r.store⟩ := by
  obtain ⟨hResult, hFinite⟩ := evaluate_eq_value_iff.mp (Outcome.value?_eq_some_iff.mp h)
  unfold evaluateOnce
  rw [hResult]
  dsimp only
  rw [if_pos hFinite]
  rfl

theorem evaluateOnce_of_failure (h : (evaluate r.session.angle expression).value? = none) :
    (r.evaluateOnce expression).exitCode = 1 ∧ (r.evaluateOnce expression).output = [] := by
  rw [evaluate, value?_ofResult] at h
  unfold evaluateOnce
  cases hResult : evalText r.session.angle expression with
  | error e => exact ⟨rfl, rfl⟩
  | ok y =>
    rw [hResult] at h
    have hInfinite : ¬y.isFinite = true := Option.filter_eq_none_iff.mp h y rfl
    dsimp only
    rw [if_neg hInfinite]
    exact ⟨rfl, rfl⟩

end Run

/-- An expression given on the command line prints a line and succeeds if and only if the session
that the program starts with, were it given the expression as a line, would print the same line and
commit. It prints nothing and fails if and only if the line would print an error and leave the
settings as they are. One of the two holds. -/
theorem CommandLine.run_agrees_with_line (c : CommandLine) (store : Store)
    (input : List (Option Text)) (hExpression : c.expression? = some expression)
    (hWord : expression.words.head? = some word) (hCommand : Console.Command.ofWord? word = none) :
    let s := (Run.start store c.angle?).session
    let once := c.run store input
    let reply := Console.handle s expression
    (∀ T, once.exitCode = 0 ∧ once.output = Console.line T ↔
      reply.output = Console.line T ∧ Commits s reply.session expression.trim T) ∧
    (once.exitCode = 1 ∧ once.output = [] ↔
      (∃ t, '\n' ∉ t ∧ reply.output = Console.line ("Error".toList ++ t)) ∧
        KeepsSettings s reply.session) ∧
    ((∃ T, '\n' ∉ T ∧ once.exitCode = 0 ∧ once.output = Console.line T) ∨
      once.exitCode = 1 ∧ once.output = []) := by
  intro s once reply
  have hWords : expression.words ≠ [] := by
    intro hNone
    rw [hNone] at hWord
    cases hWord
  have hRun : once = (Run.start store c.angle?).evaluateOnce expression := by
    simp only [once, CommandLine.run, hExpression]
  have hReply : reply = _ := Console.handle_of_expression hWord hCommand s
  have hSame := Session.value?_outcome_load (s := s) hWords
  cases hValue : (evaluate s.angle expression).value? with
  | some x =>
    -- Both sides of the first equivalence hold of the text of the value, and none of the second.
    have hOnce : once = _ := hRun.trans (Run.evaluateOnce_of_value hValue)
    have hOutcome := Outcome.value?_eq_some_iff.mp (hSame.trans hValue)
    have hLine : reply.output = Console.line (Display.text x) := by
      rw [hReply]
      exact Console.commit_of_value hOutcome
    have hCommits : Commits s reply.session expression.trim (Display.text x) := by
      rw [hReply]
      exact Session.commits_of_value hWords hOutcome
    refine ⟨fun T => ?_, iff_of_false ?_ ?_, .inl ⟨_, Display.newline_notMem_text x, ?_⟩⟩
    · rw [hOnce, hLine, Console.line_inj]
      constructor
      · rintro ⟨-, rfl⟩
        exact ⟨rfl, hCommits⟩
      · rintro ⟨rfl, -⟩
        exact ⟨rfl, rfl⟩
    · rw [hOnce]
      rintro ⟨hExit, -⟩
      cases hExit
    · rintro ⟨⟨t, -, hError⟩, -⟩
      rw [hLine, Console.line_inj] at hError
      exact Display.text_ne_error_append (Session.isFinite_of_outcome hOutcome) t hError
    · rw [hOnce]
      exact ⟨rfl, rfl⟩
  | none =>
    obtain ⟨hExit, hOutput⟩ := Run.evaluateOnce_of_failure hValue
    rw [← hRun] at hExit hOutput
    have hFailure := hSame.trans hValue
    obtain ⟨t, hOneLine, hLine⟩ := Console.commit_of_failure hFailure
    obtain ⟨hKeeps, hCommitted⟩ := Session.keepsSettings_of_failure hFailure
    refine ⟨fun T => iff_of_false ?_ ?_, iff_of_true ⟨hExit, hOutput⟩ ?_, .inr ⟨hExit, hOutput⟩⟩
    · rintro ⟨hSuccess, -⟩
      rw [hExit] at hSuccess
      cases hSuccess
    · rintro ⟨-, hCommits⟩
      have hSome := hCommits.committed
      rw [hReply] at hSome
      cases hCommitted.symm.trans hSome
    · rw [hReply]
      exact ⟨⟨t, hOneLine, hLine⟩, hKeeps⟩

/-- A quarter has a value. One divided by zero, with a blank behind it, has none. -/
theorem CommandLine.run_agrees_with_line_on_quotients :
    let store : Store := .memory none
    let c (word : Text) : CommandLine :=
      { CommandLine.empty with switches := [.degrees], words := [word] }
    let s := (Run.start store (some .degrees)).session
    let value := Console.handle s "1/4".toList
    let failure := Console.handle s "1/0 ".toList
    (((c "1/4".toList).run store []).output = "0.25\n".toList ∧ value.output = "0.25\n".toList ∧
      Commits s value.session "1/4".toList "0.25".toList) ∧
    ((c "1/0 ".toList).run store []).output = [] ∧
      (∃ t, '\n' ∉ t ∧ failure.output = Console.line ("Error".toList ++ t)) ∧
      KeepsSettings s failure.session := by
  intro store c s value failure
  have hValue : ((c "1/4".toList).run store []).exitCode = 0 ∧
      ((c "1/4".toList).run store []).output = "0.25\n".toList := by
    decide +kernel
  have hFailure : ((c "1/0 ".toList).run store []).exitCode = 1 ∧
      ((c "1/0 ".toList).run store []).output = [] := by
    decide +kernel
  obtain ⟨hCommits, -, -⟩ := run_agrees_with_line (c "1/4".toList) store [] rfl rfl (by decide)
  obtain ⟨-, hKeeps, -⟩ := run_agrees_with_line (c "1/0 ".toList) store [] rfl rfl (by decide)
  exact ⟨⟨hValue.2, (hCommits "0.25".toList).mp hValue⟩, hFailure.2, hKeeps.mp hFailure⟩

end Calculator
