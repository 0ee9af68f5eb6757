import Calculator.Text.Basic

/-! The named functions of one argument. -/

namespace Calculator

inductive Func where
  | sin | cos | tan | asin | acos | atan | sinh | cosh | tanh
  | log10 | ln | pow10 | exp | sqrt | square | reciprocal | factorial
deriving DecidableEq, Repr

namespace Func

def all : List Func :=
  [sin, cos, tan, asin, acos, atan, sinh, cosh, tanh,
   log10, ln, pow10, exp, sqrt, square, reciprocal, factorial]

def name : Func → Text
  | sin => "sin".toList
  | cos => "cos".toList
  | tan => "tan".toList
  | asin => "asin".toList
  | acos => "acos".toList
  | atan => "atan".toList
  | sinh => "sinh".toList
  | cosh => "cosh".toList
  | tanh => "tanh".toList
  | log10 => "log".toList
  | ln => "ln".toList
  | pow10 => "antilog".toList
  | exp => "exp".toList
  | sqrt => "sqrt".toList
  | square => "sqr".toList
  | reciprocal => "reciproc".toList
  | factorial => "fact".toList

def ofName? (s : Text) : Option Func := all.find? fun f => f.name == s

/-- The function on the same key in the second set. -/
def second : Func → Func
  | sin => sinh
  | cos => cosh
  | tan => tanh
  | log10 => pow10
  | ln => exp
  | f => f

def opener (f : Func) : Text := f.name ++ ['(']

theorem mem_all (f : Func) : f ∈ all := by cases f <;> decide

theorem ofName?_name (f : Func) : ofName? f.name = some f := by cases f <;> decide

theorem name_of_ofName? {s : Text} {f : Func} (h : ofName? s = some f) : f.name = s := by
  simpa using List.find?_some h

end Func

end Calculator
