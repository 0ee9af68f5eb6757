import Calculator.Session.Basic

/-! What a user can do to a session, button by button or directly, as data. -/

namespace Calculator

inductive Operation where
  | press (key : Key)
  | digit (c : Char)
  | operator (op : Operator)
  | function (f : Func)
  | constant (c : Constant)
  | paren (c : Char)
  | toggleSign
  | delete
  | clear
  | commit
  | setAngle (angle : Angle)
  | toggleAngle
  | toggleTheme
  | toggleSecond
  | memoryClear
  | memoryAdd
  | memorySubtract
  | memoryRecall
  | load (expression : Text)
  | replay (index : Nat)
  | clearHistory
  | restore

namespace Session

/-- Presses a button. A function button types its function of the active set. -/
def press (s : Session) : Key → Session
  | .digit c => s.typeDigit c
  | .operator op => s.typeOperator op
  | .equals => s.commit
  | .allClear => s.clear
  | .delete => s.deleteLast
  | .toggleSign => s.toggleSign
  | .function f => s.typeFunction (if s.second then f.second else f)
  | .constant c => s.typeConstant c
  | .openParen => s.typeParen '('
  | .closeParen => s.typeParen ')'
  | .second => s.toggleSecond
  | .memoryClear => s.memoryClear
  | .memoryAdd => s.memoryAdd
  | .memorySubtract => s.memorySubtract
  | .memoryRecall => s.memoryRecall

/-- Does one thing to the session. A replay of an index without a calculation does nothing; a
restore starts anew with what the session would have stored. -/
def perform (s : Session) : Operation → Session
  | .press key => s.press key
  | .digit c => s.typeDigit c
  | .operator op => s.typeOperator op
  | .function f => s.typeFunction f
  | .constant c => s.typeConstant c
  | .paren c => s.typeParen c
  | .toggleSign => s.toggleSign
  | .delete => s.deleteLast
  | .clear => s.clear
  | .commit => s.commit
  | .setAngle angle => s.setAngle angle
  | .toggleAngle => s.toggleAngle
  | .toggleTheme => s.toggleTheme
  | .toggleSecond => s.toggleSecond
  | .memoryClear => s.memoryClear
  | .memoryAdd => s.memoryAdd
  | .memorySubtract => s.memorySubtract
  | .memoryRecall => s.memoryRecall
  | .load expression => s.load expression
  | .replay index => (s.replay? index).getD s
  | .clearHistory => s.clearHistory
  | .restore => ofSnapshot s.snapshot

def performAll (s : Session) (operations : List Operation) : Session := operations.foldl perform s

def pressAll (s : Session) (keys : List Key) : Session := keys.foldl press s

end Session

end Calculator
