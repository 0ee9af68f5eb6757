import Calculator.Text.Basic

/-! The binary operators, their characters, and how tightly they bind. -/

namespace Calculator

inductive Operator where
  | add | sub | mul | div | mod | pow
deriving DecidableEq, Repr

namespace Operator

def symbol : Operator → Char
  | add => '+'
  | sub => '-'
  | mul => '*'
  | div => '/'
  | mod => '%'
  | pow => '^'

/-- The operator that a character stands for; the display signs `×` and `÷` count too. -/
def ofChar? : Char → Option Operator
  | '+' => some add
  | '-' => some sub
  | '*' | '×' => some mul
  | '/' | '÷' => some div
  | '%' => some mod
  | '^' => some pow
  | _ => none

/-- The operator that an ASCII character stands for. -/
def ofAscii? (c : Char) : Option Operator := if c.toNat < 128 then ofChar? c else none

/-- How tightly the operator binds: sums least, then products, then powers. -/
def strength : Operator → Nat
  | add | sub => 1
  | mul | div | mod => 2
  | pow => 4

theorem ofChar?_symbol (op : Operator) : ofChar? op.symbol = some op := by cases op <;> rfl

theorem ofAscii?_symbol (op : Operator) : ofAscii? op.symbol = some op := by cases op <;> rfl

end Operator

end Calculator
