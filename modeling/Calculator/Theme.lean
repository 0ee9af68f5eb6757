import Calculator.Text.Basic

/-! The colours of the display. -/

namespace Calculator

inductive Theme where
  | light | dark
deriving DecidableEq, Repr

namespace Theme

def toggle : Theme → Theme
  | light => dark
  | dark => light

def code : Theme → Text
  | light => "light".toList
  | dark => "dark".toList

def ofCode? (s : Text) : Option Theme :=
  if s = light.code then some light else if s = dark.code then some dark else none

def label : Theme → Text
  | light => "Light".toList
  | dark => "Dark".toList

end Theme

end Calculator
