import Calculator.Expr.Parser

/-! What the parser does to its stack: unwinding hands an operand over to the constructs that bind it
and loses nothing, and the closing parentheses after a text build the expression that the end of the
text builds without them. -/

namespace Calculator

namespace Pending

theorem strength_binary {op : Operator} (lhs : Expr) (h : op ≠ .pow) :
    (binary op lhs).strength = op.strength := by
  cases op <;> first | rfl | exact absurd rfl h

theorem nests_binary {op : Operator} (lhs : Expr) (h : op ≠ .pow) :
    (binary op lhs).nests = false := by
  cases op <;> first | rfl | exact absurd rfl h

end Pending

namespace Parser

@[simp] theorem depth_nil : depth [] = 0 := rfl

theorem depth_cons (p : Pending) (stack : List Pending) :
    depth (p :: stack) = depth stack + p.nests.toNat := by
  simp only [depth, List.countP_cons]
  cases p.nests <;> rfl

theorem depth_binary {op : Operator} (lhs : Expr) (stack : List Pending) (h : op ≠ .pow) :
    depth (.binary op lhs :: stack) = depth stack := by
  rw [depth_cons, Pending.nests_binary lhs h]
  rfl

def Below (strength : Nat) (stack : List Pending) : Prop :=
  ∀ p ∈ stack.head?, p.strength < strength

@[simp] theorem below_nil (strength : Nat) : Below strength [] := by simp [Below]

@[simp] theorem below_cons {strength : Nat} {p : Pending} {stack : List Pending} :
    Below strength (p :: stack) ↔ p.strength < strength := by simp [Below]

@[simp] theorem unwind_nil (strength : Nat) (e : Expr) : unwind strength [] e = ([], e) := rfl

theorem unwind_cons_of_le {strength : Nat} {p : Pending} (stack : List Pending) (e : Expr)
    (h : strength ≤ p.strength) :
    unwind strength (p :: stack) e = unwind strength stack (p.fill e) := by
  rw [unwind, if_pos h]

theorem unwind_of_below {strength : Nat} {stack : List Pending} (e : Expr)
    (h : Below strength stack) : unwind strength stack e = (stack, e) := by
  cases stack with
  | nil => rfl
  | cons p stack =>
    rw [below_cons] at h
    rw [unwind, if_neg (by omega)]

theorem below_unwind (strength : Nat) (stack : List Pending) (e : Expr) :
    Below strength (unwind strength stack e).1 := by
  induction stack generalizing e with
  | nil => simp
  | cons p stack ih =>
    by_cases h : strength ≤ p.strength
    · rw [unwind_cons_of_le stack e h]
      exact ih _
    · have hBelow : Below strength (p :: stack) := by rw [below_cons]; omega
      rwa [unwind_of_below e hBelow]

@[simp] theorem close_nil (e : Expr) : close [] e = e := rfl

@[simp] theorem close_cons (p : Pending) (stack : List Pending) (e : Expr) :
    close (p :: stack) e = close stack (p.fill e) := rfl

theorem close_unwind (strength : Nat) (stack : List Pending) (e : Expr) :
    close (unwind strength stack e).1 (unwind strength stack e).2 = close stack e := by
  induction stack generalizing e with
  | nil => rfl
  | cons p stack ih =>
    by_cases h : strength ≤ p.strength
    · rw [unwind_cons_of_le stack e h, ih, close_cons]
    · have hBelow : Below strength (p :: stack) := by rw [below_cons]; omega
      rw [unwind_of_below e hBelow]

theorem descend_eq_ok_iff {stack : List Pending} {state : State} :
    descend stack = .ok state ↔ depth stack ≤ depthLimit ∧ state = .operand stack := by
  unfold descend
  split
  · simp only [reduceCtorEq, false_iff, not_and]
    omega
  · simp only [Except.ok.injEq]
    exact ⟨fun h => ⟨by omega, h.symm⟩, fun h => h.2.symm⟩

theorem descend_of_le {stack : List Pending} (h : depth stack ≤ depthLimit) :
    descend stack = .ok (.operand stack) := descend_eq_ok_iff.mpr ⟨h, rfl⟩

theorem descend_of_lt {stack : List Pending} (h : depthLimit < depth stack) :
    descend stack = .error (.malformed .tooDeep) := if_pos h

@[simp] theorem run_nil (state : State) : run state [] = .ok state := rfl

theorem run_cons (state : State) (t : Token) (ts : List Token) :
    run state (t :: ts) = step state t >>= fun next => run next ts := rfl

theorem run_append (state : State) (ts us : List Token) :
    run state (ts ++ us) = run state ts >>= fun next => run next us := by
  simp only [run, List.foldlM_append]

theorem run_cons_eq_ok_iff {state final : State} {t : Token} {ts : List Token} :
    run state (t :: ts) = .ok final ↔
      ∃ next, step state t = .ok next ∧ run next ts = .ok final := by
  rw [run_cons]
  cases h : step state t with
  | error e => simp [bind, Except.bind]
  | ok next => simp [bind, Except.bind]

theorem run_cons_of_step {state next : State} {t : Token} (ts : List Token)
    (h : step state t = .ok next) : run state (t :: ts) = run next ts := by
  rw [run_cons, h]
  rfl

theorem run_append_of_run {state next : State} {ts : List Token} (us : List Token)
    (h : run state ts = .ok next) : run state (ts ++ us) = run next us := by
  rw [run_append, h]
  rfl

theorem run_append_eq_ok_iff {state final : State} {ts us : List Token} :
    run state (ts ++ us) = .ok final ↔
      ∃ next, run state ts = .ok next ∧ run next us = .ok final := by
  rw [run_append]
  cases h : run state ts with
  | error e => simp [bind, Except.bind]
  | ok next => simp [bind, Except.bind]

/-- An opener's group starts like an operand, unless it lies too deep or is empty. -/
theorem step_opened {stack : List Pending} {t : Token} (hDepth : depth stack ≤ depthLimit)
    (hToken : t ≠ .closeParen) : step (.opened stack) t = stepOperand stack t := by
  cases t with
  | closeParen => exact absurd rfl hToken
  | _ => simp only [step, descend_of_le hDepth]; rfl

theorem step_opened_of_lt {stack : List Pending} {t : Token} (hDepth : depthLimit < depth stack)
    (hToken : t ≠ .closeParen) : step (.opened stack) t = .error (.malformed .tooDeep) := by
  cases t with
  | closeParen => exact absurd rfl hToken
  | _ => simp only [step, descend_of_lt hDepth]; rfl

/-- The parser can read an operand under the stack. -/
inductive Ready : State → List Pending → Prop
  | operand (stack : List Pending) : Ready (.operand stack) stack
  | opened {stack : List Pending} : depth stack ≤ depthLimit → Ready (.opened stack) stack

/-- All that reading a token can do. -/
inductive Reading : State → Token → State → Prop
  | number {state : State} {stack : List Pending} (x : Binary64) : Ready state stack →
      Reading state (.number x) (.complete stack (.number x))
  | constant {state : State} {stack : List Pending} (c : Constant) : Ready state stack →
      Reading state (.constant c) (.complete stack (.constant c))
  | openParen {state : State} {stack : List Pending} : Ready state stack →
      Reading state .openParen (.opened (.group :: stack))
  | function {state : State} {stack : List Pending} (f : Func) : Ready state stack →
      Reading state (.function f) (.opened (.call f :: stack))
  | plus {state : State} {stack : List Pending} : Ready state stack →
      depth (.plus :: stack) ≤ depthLimit →
      Reading state (.operator .add) (.operand (.plus :: stack))
  | minus {state : State} {stack : List Pending} : Ready state stack →
      depth (.minus :: stack) ≤ depthLimit →
      Reading state (.operator .sub) (.operand (.minus :: stack))
  | operator {stack outer : List Pending} {e lhs : Expr} (op : Operator) :
      unwind op.strength stack e = (outer, lhs) → depth (.binary op lhs :: outer) ≤ depthLimit →
      Reading (.complete stack e) (.operator op) (.operand (.binary op lhs :: outer))
  | closeParen {stack outer : List Pending} {e arg : Expr} {p : Pending} :
      unwind 1 stack e = (p :: outer, arg) →
      Reading (.complete stack e) .closeParen (.complete outer (p.fill arg))

theorem reading_of_stepOperand {state next : State} {stack : List Pending} {t : Token}
    (hReady : Ready state stack) (h : stepOperand stack t = .ok next) : Reading state t next := by
  cases t with
  | number x => cases h; exact .number x hReady
  | constant c => cases h; exact .constant c hReady
  | openParen => cases h; exact .openParen hReady
  | function f => cases h; exact .function f hReady
  | bareFunction f => cases h
  | closeParen => cases h
  | operator op =>
    cases op with
    | add =>
      obtain ⟨hDepth, rfl⟩ := descend_eq_ok_iff.mp h
      exact .plus hReady hDepth
    | sub =>
      obtain ⟨hDepth, rfl⟩ := descend_eq_ok_iff.mp h
      exact .minus hReady hDepth
    | _ => cases h

theorem reading_of_stepComplete {stack : List Pending} {e : Expr} {t : Token} {next : State}
    (h : stepComplete stack e t = .ok next) : Reading (.complete stack e) t next := by
  cases t with
  | operator op =>
    obtain ⟨hDepth, rfl⟩ := descend_eq_ok_iff.mp h
    exact .operator op rfl hDepth
  | closeParen =>
    rw [stepComplete] at h
    split at h
    · cases h
    · rename_i hUnwind
      cases h
      exact .closeParen hUnwind
  | _ =>
    simp only [stepComplete] at h
    split at h <;> cases h

theorem reading_of_step {state next : State} {t : Token} (h : step state t = .ok next) :
    Reading state t next := by
  cases state with
  | operand stack => exact reading_of_stepOperand (.operand stack) h
  | complete stack e => exact reading_of_stepComplete h
  | opened stack =>
    have hToken : t ≠ .closeParen := by
      rintro rfl
      cases h
    by_cases hDepth : depth stack ≤ depthLimit
    · rw [step_opened hDepth hToken] at h
      exact reading_of_stepOperand (.opened hDepth) h
    · rw [step_opened_of_lt (Nat.lt_of_not_le hDepth) hToken] at h
      cases h

/-- A closing parenthesis that can be read stands after a complete operand, and does not change the
expression that the end of the text makes of what waits. -/
theorem complete_of_step_closeParen {state : State} {stack : List Pending} {e : Expr}
    (h : step state .closeParen = .ok (.complete stack e)) :
    ∃ before arg, state = .complete before arg ∧ close before arg = close stack e := by
  cases reading_of_step h with
  | @closeParen before _ arg inner p hUnwind =>
    refine ⟨before, arg, rfl, ?_⟩
    rw [← close_unwind 1 before arg, hUnwind, close_cons]

theorem complete_of_run_closeParens {state : State} {stack : List Pending} {e : Expr} {k : Nat}
    (h : run state (List.replicate k .closeParen) = .ok (.complete stack e)) :
    ∃ before arg, state = .complete before arg ∧ close before arg = close stack e := by
  induction k generalizing state with
  | zero =>
    rw [List.replicate_zero, run_nil, Except.ok.injEq] at h
    exact ⟨stack, e, h, rfl⟩
  | succ k ih =>
    rw [List.replicate_succ, run_cons_eq_ok_iff] at h
    obtain ⟨next, hStep, hRun⟩ := h
    obtain ⟨mid, inner, rfl, hRest⟩ := ih hRun
    obtain ⟨before, arg, hState, hFirst⟩ := complete_of_step_closeParen hStep
    exact ⟨before, arg, hState, hFirst.trans hRest⟩

end Parser

/-- The parser accepts a list when a run over it ends after a complete operand. -/
theorem Expr.parse_eq_ok_iff {ts : List Token} {e : Expr} :
    Expr.parse ts = .ok e ↔
      ∃ stack arg, Parser.run (.operand []) ts = .ok (.complete stack arg) ∧
        Parser.close stack arg = e := by
  unfold Expr.parse
  cases h : Parser.run (.operand []) ts with
  | error fault => simp [bind, Except.bind]
  | ok state =>
    cases state with
    | operand stack => simp [bind, Except.bind, Parser.finish]
    | complete stack arg =>
      simp only [bind, Except.bind, Parser.finish, Except.ok.injEq, Parser.State.complete.injEq]
      constructor
      · intro hClose
        exact ⟨stack, arg, ⟨rfl, rfl⟩, hClose⟩
      · rintro ⟨_, _, ⟨rfl, rfl⟩, hClose⟩
        exact hClose
    | opened stack =>
      by_cases hDepth : Parser.depthLimit < Parser.depth stack
      · simp [bind, Except.bind, Parser.finish, Parser.descend_of_lt hDepth]
      · simp [bind, Except.bind, Parser.finish, Parser.descend_of_le (Nat.le_of_not_lt hDepth)]

end Calculator
