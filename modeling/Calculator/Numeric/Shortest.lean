import Calculator.Numeric.Decimal

/-! Decimal expansions of magnitudes: the shortest decimal that reads back, and exact rounding to a
given place. Every magnitude is a whole number of units of `10 ^ -1074`, so all of it is arithmetic
of natural numbers. -/

namespace Calculator.Magnitude

-- Powers are those of the core library, whichever others an importing module knows.
attribute [local instance (high)] instPowNat

/-- The value in units of `10 ^ -1074`. -/
def decimalUnits (m : Magnitude) : Nat := m.units * 5 ^ (1074 : Nat)

/-- Twice the midpoint, in decimal units, between the magnitude and the one before it. -/
def lowerBound (m : Magnitude) : Nat := (unitsOfRank (m.rank - 1) + m.units) * 5 ^ (1074 : Nat)

/-- Twice the midpoint, in decimal units, between the magnitude and the one after it. -/
def upperBound (m : Magnitude) : Nat := (m.units + unitsOfRank (m.rank + 1)) * 5 ^ (1074 : Nat)

/-- Whether `x` decimal units round to the magnitude: they lie between the midpoints, which
themselves round to the magnitude when its rank is even. -/
def readsBack (m : Magnitude) (x : Nat) : Bool :=
  if m.rank % 2 = 0 then m.lowerBound ≤ 2 * x && 2 * x ≤ m.upperBound
  else m.lowerBound < 2 * x && 2 * x < m.upperBound

/-- The multiple of `10 ^ place` decimal units next to the value that reads back, the nearer one if
both do, and the upper one if both are equally near. -/
def gridPoint? (m : Magnitude) (place : Nat) : Option Nat :=
  let below := m.decimalUnits / 10 ^ place
  let beyond := m.decimalUnits % 10 ^ place
  let down := m.readsBack (below * 10 ^ place)
  let up := m.readsBack ((below + 1) * 10 ^ place)
  if down && (!up || 2 * beyond < 10 ^ place) then some below
  else if up then some (below + 1) else none

def decimalAt (place coefficient : Nat) : Decimal := ⟨coefficient, place - 1074⟩

/-- The decimal that reads back on the coarsest grid from `place` down. -/
def shortestFrom (m : Magnitude) : Nat → Decimal
  | 0 => decimalAt 0 m.decimalUnits
  | place + 1 =>
    match m.gridPoint? (place + 1) with
    | some coefficient => decimalAt (place + 1) coefficient
    | none => m.shortestFrom place

/-- The decimal with the fewest digits that reads back as the magnitude, and the nearest of
those. -/
def shortest (m : Magnitude) : Decimal :=
  if m.rank = 0 then ⟨0, 0⟩ else m.shortestFrom (digitCount m.decimalUnits)

/-- The value rounded to a whole number of `10 ^ place` decimal units, halves to even. -/
def roundAt (m : Magnitude) (place : Nat) : Decimal :=
  decimalAt place (roundHalfEven m.decimalUnits (10 ^ place))

/-- The value rounded to so many digits after the point. -/
def roundToPlaces (m : Magnitude) (places : Nat) : Decimal := m.roundAt (1074 - places)

/-- The value rounded to so many significant digits. A carry into a new digit takes up one
place. -/
def roundToDigits (m : Magnitude) (digits : Nat) : Decimal :=
  let d := m.roundAt (digitCount m.decimalUnits - digits)
  if d.coefficient = 10 ^ digits then ⟨10 ^ (digits - 1), d.exponent + 1⟩ else d

end Calculator.Magnitude

namespace Calculator.Binary64

def signed (negative : Bool) (s : Text) : Text := if negative then '-' :: s else s

/-- The shortest plain decimal text that reads back as the number. -/
def raw : Binary64 → Text
  | nan _ => "NaN".toList
  | infinite negative => signed negative "inf".toList
  | finite negative m => signed negative m.shortest.plain

end Calculator.Binary64
