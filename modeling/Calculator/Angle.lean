import Calculator.Numeric.Arithmetic
import Calculator.Text.Basic

/-! The unit in which trigonometric functions take and give angles. -/

namespace Calculator

inductive Angle where
  | radians | degrees
deriving DecidableEq, Repr

namespace Angle

def toggle : Angle → Angle
  | radians => degrees
  | degrees => radians

def label : Angle → Text
  | radians => "RAD".toList
  | degrees => "DEG".toList

def code : Angle → Text
  | radians => "rad".toList
  | degrees => "deg".toList

def ofCode? (s : Text) : Option Angle :=
  if s = radians.code then some radians else if s = degrees.code then some degrees else none

/-- The unit that a user names, by its code or in full. -/
def ofName? (s : Text) : Option Angle :=
  if s = "radians".toList then some radians
  else if s = "degrees".toList then some degrees
  else ofCode? s

def unknownName (s : Text) : Text := "unknown angle mode '".toList ++ s ++ ['\'']

def radiansPerDegree : Binary64 := .pi / .ofNat 180

def degreesPerRadian : Binary64 := .ofNat 180 / .pi

def toRadians (angle : Angle) (x : Binary64) : Binary64 :=
  match angle with
  | radians => x
  | degrees => x * radiansPerDegree

def ofRadians (angle : Angle) (x : Binary64) : Binary64 :=
  match angle with
  | radians => x
  | degrees => x * degreesPerRadian

end Angle

end Calculator
