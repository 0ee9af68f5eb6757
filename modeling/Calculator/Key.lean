import Calculator.Constant
import Calculator.Func
import Calculator.Operator

/-! The buttons of the calculator, their identifiers, and the keys of a keyboard that press them. -/

namespace Calculator

/-- A button. A function button carries its function of the first set; a digit button carries a
digit or the decimal point. -/
inductive Key where
  | digit (c : Char)
  | operator (op : Operator)
  | equals
  | allClear
  | delete
  | toggleSign
  | function (f : Func)
  | constant (c : Constant)
  | openParen
  | closeParen
  | second
  | memoryClear
  | memoryAdd
  | memorySubtract
  | memoryRecall
deriving DecidableEq

namespace Key

def isDigitOrPoint (c : Char) : Bool := c.isDigit || c == '.'

/-- The button of a digit, the decimal point or an ASCII operator. -/
def ofChar? (c : Char) : Option Key :=
  if isDigitOrPoint c then some (digit c) else (Operator.ofAscii? c).map operator

/-- The buttons that have identifiers of their own. -/
def named : List (Text × Key) :=
  [("=".toList, equals), ("ac".toList, allClear), ("del".toList, delete),
   ("+/-".toList, toggleSign), ("sin".toList, function .sin), ("cos".toList, function .cos),
   ("tan".toList, function .tan), ("asin".toList, function .asin), ("acos".toList, function .acos),
   ("atan".toList, function .atan), ("log".toList, function .log10), ("ln".toList, function .ln),
   ("sqrt".toList, function .sqrt), ("!".toList, function .factorial),
   ("x2".toList, function .square), ("1/x".toList, function .reciprocal),
   ("pi".toList, constant .pi), ("e".toList, constant .e), ("(".toList, openParen),
   (")".toList, closeParen), ("2nd".toList, second), ("mc".toList, memoryClear),
   ("m+".toList, memoryAdd), ("m-".toList, memorySubtract), ("mr".toList, memoryRecall)]

def ofId? (id : Text) : Option Key :=
  match named.lookup id, id with
  | some key, _ => some key
  | none, [c] => ofChar? c
  | none, _ => none

def unknownId (id : Text) : Text := "unknown key '".toList ++ id ++ ['\'']

/-- The button that a key of the keyboard presses, by the key's name. -/
def ofKeyboard? (name : Text) : Option Key :=
  if name = "Enter".toList then some equals
  else if name = "Escape".toList then some allClear
  else if name = "Backspace".toList then some delete
  else match name with
    | ['('] => some openParen
    | [')'] => some closeParen
    | [c] => ofChar? c
    | _ => none

end Key

end Calculator
