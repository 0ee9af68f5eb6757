import Calculator.Expr.Basic

/-! Two measures of an expression: its height as a tree, and how deep its text nests. -/

namespace Calculator.Expr

/-- The number of steps from the root to the farthest leaf. -/
def height : Expr → Nat
  | number _ | constant _ => 0
  | neg arg => arg.height + 1
  | binary _ lhs rhs => max lhs.height rhs.height + 1
  | call _ arg => arg.height + 1

/-- The most groups, signs and exponents that enclose an operand in the text of the expression,
where every minus and every operator stands in a group of its own. -/
def nesting : Expr → Nat
  | number _ | constant _ => 0
  | neg arg => arg.nesting + 2
  | binary .pow lhs rhs => max lhs.nesting (rhs.nesting + 1) + 1
  | binary _ lhs rhs => max lhs.nesting rhs.nesting + 1
  | call _ arg => arg.nesting + 1

end Calculator.Expr
