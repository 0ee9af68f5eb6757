import Calculator.Angle
import Calculator.History
import Calculator.Theme

/-! The part of a session that outlives it. -/

namespace Calculator

/-- What is stored of a session. The memory register is stored as decimal text. -/
structure Snapshot where
  angle : Angle
  theme : Theme
  memory : Text
  history : List Calculation
deriving DecidableEq

def Snapshot.initial : Snapshot := ⟨.radians, .light, ['0'], []⟩

end Calculator
