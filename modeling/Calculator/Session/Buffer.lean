import Calculator.Key

/-! The input buffer of a session and how each button changes its text. The buffer starts as a lone
zero, which the first operand replaces. -/

namespace Calculator.Buffer

def start : Text := ['0']

def isOperator (c : Char) : Bool := (Operator.ofAscii? c).isSome

/-- Whether a minus after the character is the sign of the next operand. -/
def takesSign (c : Char) : Bool := c == '*' || c == '/' || c == '%' || c == '^'

def currentNumber (input : Text) : Text :=
  (input.reverse.takeWhile Key.isDigitOrPoint).reverse

/-- Types a digit or the decimal point. A digit replaces a lone zero and keeps its sign; a second
point in a number is refused. -/
def typeDigit? (input : Text) (c : Char) : Option Text :=
  if c = '.' then if '.' ∈ currentNumber input then none else some (input ++ [c])
  else if input = start then some [c]
  else if input = '-' :: start then some ['-', c]
  else some (input ++ [c])

/-- Types an operator, with the buffer given from its end. A second operator replaces the first, but
a minus after a product, quotient, remainder or power is the sign of the next operand. -/
def typeOperatorReversed (op : Operator) : Text → Text
  | '-' :: before :: rest =>
    if takesSign before then
      if op = .sub then '-' :: before :: rest else op.symbol :: rest
    else op.symbol :: before :: rest
  | last :: rest =>
    if takesSign last && op = .sub then op.symbol :: last :: rest
    else if isOperator last then op.symbol :: rest
    else op.symbol :: last :: rest
  | [] => [op.symbol]

def typeOperator (input : Text) (op : Operator) : Text :=
  (typeOperatorReversed op input.reverse).reverse

def withoutZero (input : Text) : Text := if input = start then [] else input

def typeFunction (input : Text) (f : Func) : Text := withoutZero input ++ f.opener

/-- Types a parenthesis. An opening one replaces a lone zero. -/
def typeParen (input : Text) (c : Char) : Text :=
  (if c = '(' then withoutZero input else input) ++ [c]

/-- Places an operand at the end: in place of a lone zero, directly after an operator or an opening
parenthesis, and multiplied onto anything else. -/
def placeOperand (input operand : Text) : Text :=
  if input = start then operand
  else match input.getLast? with
    | some c => if isOperator c || c == '(' then input ++ operand else input ++ '*' :: operand
    | none => '*' :: operand

/-- Puts a minus at the front, or takes one away. -/
def toggleSign : Text → Text
  | '-' :: rest => rest
  | input => '-' :: input

/-- How many characters the longest function opener at the end has. -/
def openerLength? (input : Text) : Option Nat :=
  ((Func.all.filter fun f => input.endsWith f.opener).map fun f => f.opener.length).max?

/-- The buffer without its last character, or without the whole function opener that ends it.
Nothing is left of a single character, with a sign or without. -/
def dropEnd (input : Text) : Text :=
  match openerLength? input with
  | some n => input.take (input.length - n)
  | none =>
    if input.length ≤ 1 ∨ (input.length = 2 ∧ input.head? = some '-') then [] else input.dropLast

/-- Deletes the end; an empty buffer starts anew. -/
def deleteEnd (input : Text) : Text :=
  let rest := dropEnd input
  if rest.isEmpty then start else rest

/-- The buffer of a loaded text; a blank one starts anew. -/
def load (expression : Text) : Text := if expression.isAllBlank then start else expression

def display (input : Text) : Text :=
  input.map fun c => if c = '*' then '×' else if c = '/' then '÷' else c

end Calculator.Buffer
