import Calculator.Display
import Calculator.Expr.Eval
import Calculator.Expr.Parser
import Calculator.Token.Lexer

/-! From text to value: tokens, expression, value, and what becomes of the failures on the way. -/

namespace Calculator

inductive Failure where
  | lex (e : LexError)
  | parse (e : ParseError)
  | domain (e : DomainError)
deriving DecidableEq

def Failure.message : Failure → Text
  | lex e => e.message
  | parse e => e.message
  | domain e => e.message

def parseText (s : Text) : Except Failure Expr := do
  let ts ← (Token.scan s).mapError .lex
  (Expr.parse ts).mapError .parse

/-- The value of the expression that a text spells. -/
def evalText (angle : Angle) (s : Text) : Except Failure Binary64 := do
  let e ← parseText s
  (e.eval angle).mapError .domain

/-- What a text comes to: a finite value, a missing operand, a fault, or no finite real value. -/
inductive Outcome where
  | value (x : Binary64)
  | incomplete
  | malformed (reason : Text)
  | domain
deriving DecidableEq

namespace Outcome

def ofResult : Except Failure Binary64 → Outcome
  | .ok x => if x.isFinite then value x else domain
  | .error (.domain _) => domain
  | .error (.parse .incomplete) => incomplete
  | .error e => malformed e.message

def value? : Outcome → Option Binary64
  | value x => some x
  | _ => none

theorem value?_eq_some_iff {o : Outcome} {x : Binary64} : o.value? = some x ↔ o = value x := by
  cases o <;> simp [value?]

end Outcome

def evaluate (angle : Angle) (s : Text) : Outcome := .ofResult (evalText angle s)

end Calculator
