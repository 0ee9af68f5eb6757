import Calculator.Numeric.Binary64
import Calculator.Text.Basic

/-! The named constants. -/

namespace Calculator

inductive Constant where
  | pi | e
deriving DecidableEq, Repr

namespace Constant

def symbol : Constant → Text
  | pi => ['π']
  | e => ['e']

def ofName? (s : Text) : Option Constant :=
  if s = "pi".toList then some pi else if s = "e".toList then some e else none

def value : Constant → Binary64
  | pi => .pi
  | e => .euler

end Constant

end Calculator
