import Calculator.Constant
import Calculator.Func
import Calculator.Operator
import Calculator.Numeric.Shortest

/-! Expressions as trees, and their text with every group in parentheses. -/

namespace Calculator

inductive Expr where
  | number (x : Binary64)
  | constant (c : Constant)
  | neg (arg : Expr)
  | binary (op : Operator) (lhs rhs : Expr)
  | call (f : Func) (arg : Expr)
deriving DecidableEq

namespace Expr

/-- The text of the expression, with parentheses around every minus and every operator. -/
def text : Expr → Text
  | number x => x.raw
  | constant c => c.symbol
  | neg arg => "(-".toList ++ arg.text ++ [')']
  | binary op lhs rhs => '(' :: lhs.text ++ [' ', op.symbol, ' '] ++ rhs.text ++ [')']
  | call f arg => f.opener ++ arg.text ++ [')']

end Expr

end Calculator
