import Calculator.Proofs.ParserStack

/-! Which lists of tokens lack just one operand. A list is incomplete exactly when a number behind it
makes it an expression, except for a list with an empty group, which nothing repairs. Every list
before the end of an accepted one is accepted or incomplete. -/

namespace Calculator

namespace Token

def operand? : Token → Option Expr
  | number x => some (.number x)
  | constant c => some (.constant c)
  | _ => none

/-- No opener stands right before a closing parenthesis. -/
def FreeOfEmptyGroups (ts : List Token) : Prop :=
  ∀ before opener after, ts = before ++ opener :: .closeParen :: after → opener.isOpener = false

theorem not_freeOfEmptyGroups_cons {t : Token} {ts : List Token} (h : ¬FreeOfEmptyGroups ts) :
    ¬FreeOfEmptyGroups (t :: ts) := by
  intro hFree
  refine h fun before opener after hTokens => hFree (t :: before) opener after ?_
  rw [hTokens, List.cons_append]

end Token

namespace Parser

theorem finish_eq_incomplete_iff {state : State} :
    finish state = .error .incomplete ↔ ∃ stack, Ready state stack := by
  constructor
  · intro h
    cases state with
    | operand stack => exact ⟨stack, .operand stack⟩
    | complete stack e => cases h
    | opened stack =>
      by_cases hDepth : depth stack ≤ depthLimit
      · exact ⟨stack, .opened hDepth⟩
      · simp [finish, descend_of_lt (Nat.lt_of_not_le hDepth), bind, Except.bind] at h
  · rintro ⟨stack, hReady⟩
    cases hReady with
    | operand => rfl
    | opened hDepth => simp [finish, descend_of_le hDepth, bind, Except.bind]

theorem Ready.step_eq {state : State} {stack : List Pending} {t : Token} (h : Ready state stack)
    (hToken : t ≠ .closeParen) : step state t = stepOperand stack t := by
  cases h with
  | operand => rfl
  | opened hDepth => exact step_opened hDepth hToken

theorem Ready.step_operand {state : State} {stack : List Pending} {t : Token} {e : Expr}
    (h : Ready state stack) (hOperand : t.operand? = some e) :
    step state t = .ok (.complete stack e) := by
  cases t with
  | number x => cases hOperand; exact h.step_eq (by simp)
  | constant c => cases hOperand; exact h.step_eq (by simp)
  | _ => cases hOperand

theorem exists_ready_of_step_operand {state next : State} {t : Token} {e : Expr}
    (hOperand : t.operand? = some e) (h : step state t = .ok next) :
    ∃ stack, Ready state stack := by
  cases reading_of_step h with
  | number x hReady => exact ⟨_, hReady⟩
  | constant c hReady => exact ⟨_, hReady⟩
  | _ => cases hOperand

theorem exists_ready_of_step_opened {stack : List Pending} {next : State} {t : Token}
    (h : step (.opened stack) t = .ok next) : ∃ stack', Ready (.opened stack) stack' := by
  cases reading_of_step h <;> exact ⟨_, ‹_›⟩

theorem isOpener_iff_of_step {state next : State} {t : Token} (h : step state t = .ok next) :
    t.isOpener = true ↔ ∃ stack, next = .opened stack := by
  cases reading_of_step h <;> simp [Token.isOpener]

theorem descend_ne_incomplete (stack : List Pending) : descend stack ≠ .error .incomplete := by
  unfold descend
  split <;> simp

theorem stepOperand_ne_incomplete (stack : List Pending) (t : Token) :
    stepOperand stack t ≠ .error .incomplete := by
  cases t with
  | operator op => cases op <;> simp [stepOperand, descend_ne_incomplete]
  | _ => simp [stepOperand]

theorem stepComplete_ne_incomplete (stack : List Pending) (e : Expr) (t : Token) :
    stepComplete stack e t ≠ .error .incomplete := by
  cases t with
  | operator op => exact descend_ne_incomplete _
  | _ =>
    simp only [stepComplete]
    split <;> simp

/-- Before the tokens end, only an empty group lacks an operand. -/
theorem of_step_eq_incomplete {state : State} {t : Token} (h : step state t = .error .incomplete) :
    t = .closeParen ∧ ∃ stack, state = .opened stack := by
  cases state with
  | operand stack => exact absurd h (stepOperand_ne_incomplete stack t)
  | complete stack e => exact absurd h (stepComplete_ne_incomplete stack e t)
  | opened stack =>
    by_cases hToken : t = .closeParen
    · exact ⟨hToken, stack, rfl⟩
    · by_cases hDepth : depth stack ≤ depthLimit
      · rw [step_opened hDepth hToken] at h
        exact absurd h (stepOperand_ne_incomplete stack t)
      · rw [step_opened_of_lt (Nat.lt_of_not_le hDepth) hToken] at h
        cases h

/-- A list that can be read to its end has no empty group. -/
theorem freeOfEmptyGroups_of_run {state final : State} {ts : List Token}
    (h : run state ts = .ok final) : Token.FreeOfEmptyGroups ts := by
  intro before opener after hTokens
  rw [hTokens] at h
  obtain ⟨mid, -, hRest⟩ := run_append_eq_ok_iff.mp h
  obtain ⟨next, hOpener, hClose⟩ := run_cons_eq_ok_iff.mp hRest
  cases hIsOpener : opener.isOpener with
  | false => rfl
  | true =>
    obtain ⟨stack, rfl⟩ := (isOpener_iff_of_step hOpener).mp hIsOpener
    obtain ⟨_, hStep, -⟩ := run_cons_eq_ok_iff.mp hClose
    cases hStep

/-- A list that is incomplete before its end has an empty group, whose opener may stand right before
the list. -/
theorem of_run_eq_incomplete {state : State} {ts : List Token}
    (h : run state ts = .error .incomplete) :
    ¬Token.FreeOfEmptyGroups ts ∨ ∃ stack rest, state = .opened stack ∧ ts = .closeParen :: rest := by
  induction ts generalizing state with
  | nil => cases h
  | cons t ts ih =>
    rw [run_cons] at h
    cases hStep : step state t with
    | error fault =>
      rw [hStep] at h
      cases h
      obtain ⟨rfl, stack, rfl⟩ := of_step_eq_incomplete hStep
      exact .inr ⟨stack, ts, rfl, rfl⟩
    | ok next =>
      rw [hStep] at h
      rcases ih h with hEmpty | ⟨stack, rest, rfl, rfl⟩
      · exact .inl (Token.not_freeOfEmptyGroups_cons hEmpty)
      · have hOpener := (isOpener_iff_of_step hStep).mpr ⟨stack, rfl⟩
        refine .inl fun hFree => ?_
        have := hFree [] t rest rfl
        rw [hOpener] at this
        cases this

end Parser

namespace Expr

open Calculator.Parser

theorem parse_eq_of_run {ts : List Token} {state : State} (h : run (.operand []) ts = .ok state) :
    parse ts = finish state := by
  rw [parse, h]
  rfl

theorem parse_eq_of_run_error {ts : List Token} {fault : ParseError}
    (h : run (.operand []) ts = .error fault) : parse ts = .error fault := by
  rw [parse, h]
  rfl

/-- A list without empty groups is incomplete exactly when an operand can be read behind it. -/
theorem incomplete_iff {ts : List Token} :
    parse ts = .error .incomplete ∧ Token.FreeOfEmptyGroups ts ↔
      ∃ state stack, run (.operand []) ts = .ok state ∧ Ready state stack := by
  constructor
  · rintro ⟨hParse, hFree⟩
    cases hRun : run (.operand []) ts with
    | ok state =>
      rw [parse_eq_of_run hRun] at hParse
      obtain ⟨stack, hReady⟩ := finish_eq_incomplete_iff.mp hParse
      exact ⟨state, stack, rfl, hReady⟩
    | error fault =>
      rw [parse_eq_of_run_error hRun] at hParse
      cases hParse
      rcases of_run_eq_incomplete hRun with hEmpty | ⟨stack, rest, hState, -⟩
      · exact absurd hFree hEmpty
      · cases hState
  · rintro ⟨state, stack, hRun, hReady⟩
    refine ⟨?_, freeOfEmptyGroups_of_run hRun⟩
    rw [parse_eq_of_run hRun]
    exact finish_eq_incomplete_iff.mpr ⟨stack, hReady⟩

/-- An operand behind a list makes it an expression exactly if the list is incomplete and has no
empty group. -/
theorem exists_parse_append_operand_iff {ts : List Token} {t : Token} {e : Expr}
    (h : t.operand? = some e) :
    (∃ result, parse (ts ++ [t]) = .ok result) ↔
      parse ts = .error .incomplete ∧ Token.FreeOfEmptyGroups ts := by
  rw [incomplete_iff]
  constructor
  · rintro ⟨result, hParse⟩
    obtain ⟨_, _, hRun, -⟩ := parse_eq_ok_iff.mp hParse
    obtain ⟨state, hFirst, hRest⟩ := run_append_eq_ok_iff.mp hRun
    obtain ⟨next, hStep, -⟩ := run_cons_eq_ok_iff.mp hRest
    obtain ⟨stack, hReady⟩ := exists_ready_of_step_operand h hStep
    exact ⟨state, stack, hFirst, hReady⟩
  · rintro ⟨state, stack, hRun, hReady⟩
    have hStep := hReady.step_operand h
    refine ⟨close stack e, parse_eq_ok_iff.mpr ⟨stack, e, ?_, rfl⟩⟩
    rw [run_append_of_run _ hRun, run_cons_of_step _ hStep, run_nil]

/-- A list that more tokens turn into an expression is one itself or incomplete. -/
theorem parse_of_parse_append {ts us : List Token} {e : Expr} (h : parse (ts ++ us) = .ok e) :
    (∃ result, parse ts = .ok result) ∨ parse ts = .error .incomplete := by
  obtain ⟨stack, arg, hRun, -⟩ := parse_eq_ok_iff.mp h
  obtain ⟨state, hFirst, hRest⟩ := run_append_eq_ok_iff.mp hRun
  rw [parse_eq_of_run hFirst]
  cases state with
  | operand waiting => exact .inr rfl
  | complete waiting arg => exact .inl ⟨_, rfl⟩
  | opened waiting =>
    refine .inr (finish_eq_incomplete_iff.mpr ?_)
    cases us with
    | nil => cases hRest
    | cons u us =>
      obtain ⟨next, hStep, -⟩ := run_cons_eq_ok_iff.mp hRest
      exact exists_ready_of_step_opened hStep

/-- Incomplete means that just one more operand is missing. A number behind a list makes it an
expression exactly if the list is incomplete and no opener in it stands right before a closing
parenthesis. Every list that begins an expression is an expression or incomplete; so what is
malformed stays no expression whatever follows. -/
theorem incomplete_iff_number_missing :
    (∀ ts x, (∃ e, parse (ts ++ [.number x]) = .ok e) ↔
      parse ts = .error .incomplete ∧ Token.FreeOfEmptyGroups ts) ∧
    (∀ ts e, parse ts = .ok e → ∀ before, before <+: ts →
      (∃ e', parse before = .ok e') ∨ parse before = .error .incomplete) ∧
    (∀ ts fault, parse ts = .error (.malformed fault) → ∀ us e, parse (ts ++ us) ≠ .ok e) := by
  refine ⟨fun ts x => exists_parse_append_operand_iff rfl, ?_, ?_⟩
  · rintro _ e hParse before ⟨us, rfl⟩
    exact parse_of_parse_append hParse
  · intro ts fault hFault us e hParse
    rcases parse_of_parse_append hParse with ⟨result, hResult⟩ | hIncomplete
    · rw [hFault] at hResult
      cases hResult
    · rw [hFault] at hIncomplete
      cases hIncomplete

end Expr

end Calculator
