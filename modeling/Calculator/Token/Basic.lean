import Calculator.Constant
import Calculator.Func
import Calculator.Operator
import Calculator.Numeric.Shortest

/-! The tokens of an expression. -/

namespace Calculator

/-- A token. A function's opening parenthesis is part of its token; a function's name without one
is a token of its own. -/
inductive Token where
  | number (x : Binary64)
  | operator (op : Operator)
  | function (f : Func)
  | bareFunction (f : Func)
  | constant (c : Constant)
  | openParen
  | closeParen
deriving DecidableEq

namespace Token

/-- The token as an error message shows it, between quotes. -/
def quoted (t : Token) : Text :=
  let body : Text := match t with
    | number x => x.raw
    | operator op => [op.symbol]
    | function f => f.opener
    | bareFunction f => f.name
    | constant c => c.symbol
    | openParen => ['(']
    | closeParen => [')']
  '\'' :: body ++ ['\'']

/-- Whether the token opens a group that a closing parenthesis ends. -/
def isOpener : Token → Bool
  | function _ | openParen => true
  | _ => false

end Token

end Calculator
