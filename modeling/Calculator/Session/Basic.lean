import Calculator.Numeric.Numeral
import Calculator.Outcome
import Calculator.Session.Buffer
import Calculator.Snapshot.Basic

/-! A calculator session: the input buffer, its live preview, and the settings. Every edit evaluates
the buffer anew; a failure while typing only clears the preview. Only a commit shows an error. -/

namespace Calculator

/-- The state of a session. The preview shows the value of the buffer while it has one, or an error
after a failed commit; `committed` holds the result of a commit until the next edit. -/
structure Session where
  input : Text
  preview : Option Text
  committed : Option Text
  memory : Binary64
  angle : Angle
  theme : Theme
  second : Bool
  history : History
deriving DecidableEq

namespace Session

def errorText : Text := "Error".toList

def new : Session :=
  { input := Buffer.start, preview := none, committed := none, memory := .zero, angle := .radians,
    theme := .light, second := false, history := .empty }

/-- The number in a stored memory text; text that spells no finite number counts as zero. -/
def readMemory (s : Text) : Binary64 :=
  match Numeral.value? s.trim with
  | some x => if x.isFinite then x else .zero
  | none => .zero

def ofSnapshot (s : Snapshot) : Session :=
  { new with
    memory := readMemory s.memory, angle := s.angle, theme := s.theme,
    history := .ofEntries s.history }

def snapshot (s : Session) : Snapshot := ⟨s.angle, s.theme, s.memory.raw, s.history.entries⟩

def displayInput (s : Session) : Text := Buffer.display s.input

def outcome (s : Session) : Outcome := evaluate s.angle s.input

def refresh (s : Session) : Session := { s with preview := s.outcome.value?.map Display.text }

def edit (s : Session) (input : Text) : Session :=
  refresh { s with input := input, committed := none }

/-- Types a digit or the decimal point. A refused point leaves the preview as it is. -/
def typeDigit (s : Session) (c : Char) : Session :=
  match Buffer.typeDigit? s.input c with
  | some input => s.edit input
  | none => { s with committed := none }

/-- Types an operator. After a commit it goes on from the result. -/
def typeOperator (s : Session) (op : Operator) : Session :=
  s.edit (Buffer.typeOperator (s.committed.getD s.input) op)

def typeFunction (s : Session) (f : Func) : Session := s.edit (Buffer.typeFunction s.input f)

def typeConstant (s : Session) (c : Constant) : Session :=
  s.edit (Buffer.placeOperand s.input c.symbol)

def typeParen (s : Session) (c : Char) : Session := s.edit (Buffer.typeParen s.input c)

def toggleSign (s : Session) : Session := s.edit (Buffer.toggleSign s.input)

def deleteLast (s : Session) : Session := s.edit (Buffer.deleteEnd s.input)

def clear (s : Session) : Session :=
  { s with input := Buffer.start, preview := none, committed := none }

/-- Evaluates the whole buffer. A finite value replaces the buffer and goes into the history;
anything else shows an error and keeps the buffer. -/
def commit (s : Session) : Session :=
  match s.outcome with
  | .value x =>
    let result := Display.text x
    { s with
      input := result, preview := none, committed := some result,
      history := s.history.record ⟨s.input, result⟩ }
  | _ => { s with preview := some errorText }

def setAngle (s : Session) (angle : Angle) : Session := refresh { s with angle := angle }

def toggleAngle (s : Session) : Session := s.setAngle s.angle.toggle

def toggleTheme (s : Session) : Session := { s with theme := s.theme.toggle }

def toggleSecond (s : Session) : Session := { s with second := !s.second }

/-- Stores a number in the memory register, which holds finite numbers only. -/
def store (s : Session) (x : Binary64) : Session := if x.isFinite then { s with memory := x } else s

def memoryClear (s : Session) : Session := { s with memory := .zero }

def memoryAdd (s : Session) : Session :=
  match s.outcome.value? with
  | some x => s.store (s.memory + x)
  | none => s

def memorySubtract (s : Session) : Session :=
  match s.outcome.value? with
  | some x => s.store (s.memory - x)
  | none => s

/-- Types the number in the memory register like a constant, unless it is zero. -/
def memoryRecall (s : Session) : Session :=
  if s.memory.isZero then s else s.edit (Buffer.placeOperand s.input s.memory.raw)

def load (s : Session) (expression : Text) : Session := s.edit (Buffer.load expression)

/-- Puts the expression of a calculation in the history back into the buffer, if there is one of
that index. -/
def replay? (s : Session) (index : Nat) : Option Session :=
  (s.history.get? index).map fun c => s.load c.expression

def clearHistory (s : Session) : Session := { s with history := .empty }

end Session

end Calculator
