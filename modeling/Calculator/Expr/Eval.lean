import Calculator.Angle
import Calculator.Expr.Basic
import Calculator.Numeric.Elementary

/-! The value of an expression. Infinities and values that are not numbers are values like any
other; only a power of a negative number to a finite exponent with a fraction has none. -/

namespace Calculator

/-- An operation without a real value, with its operands. -/
structure DomainError where
  op : Operator
  lhs : Binary64
  rhs : Binary64
deriving DecidableEq

def DomainError.message (e : DomainError) : Text :=
  "expression '".toList ++ e.lhs.raw ++ [' ', e.op.symbol, ' '] ++ e.rhs.raw ++
    "' has no real value".toList

def Operator.apply (op : Operator) (x y : Binary64) : Except DomainError Binary64 :=
  match op with
  | add => .ok (x + y)
  | sub => .ok (x - y)
  | mul => .ok (x * y)
  | div => .ok (x / y)
  | mod => .ok (x % y)
  | pow => if x.isNegative && y.hasFraction then .error ⟨pow, x, y⟩ else .ok (x.pow y)

/-- The value of a function of a number. Only circular functions and their inverses deal in
angles. -/
def Func.apply (angle : Angle) (f : Func) (x : Binary64) : Binary64 :=
  match f with
  | sin => (angle.toRadians x).sin
  | cos => (angle.toRadians x).cos
  | tan => (angle.toRadians x).tan
  | asin => angle.ofRadians x.asin
  | acos => angle.ofRadians x.acos
  | atan => angle.ofRadians x.atan
  | sinh => x.sinh
  | cosh => x.cosh
  | tanh => x.tanh
  | log10 => x.log10
  | ln => x.ln
  | pow10 => (Binary64.ofNat 10).pow x
  | exp => x.exp
  | sqrt => x.sqrt
  | square => x * x
  | reciprocal => .ofNat 1 / x
  | factorial => x.factorial

/-- The value of an expression, operands from left to right. -/
def Expr.eval (angle : Angle) : Expr → Except DomainError Binary64
  | number x => .ok x
  | constant c => .ok c.value
  | neg arg => do return -(← arg.eval angle)
  | binary op lhs rhs => do
    let x ← lhs.eval angle
    let y ← rhs.eval angle
    op.apply x y
  | call f arg => do return f.apply angle (← arg.eval angle)

end Calculator
