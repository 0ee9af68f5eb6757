import Calculator.Numeric.Shortest

/-! The text in which a computed value is shown. Magnitudes below `1e-10` and from `1e10` on are
written with one digit before the point, at most ten after it and a signed exponent; all others
plainly, with at most ten digits after the point. Zeros at the end of a fraction are dropped. -/

namespace Calculator.Display

/-- The nearest magnitude to `1e-10`, the least that is written plainly. -/
def plainFrom : Magnitude := ⟨0x3DDB7CDFD9D7BDBB, by decide⟩

/-- The nearest magnitude to `1e10`, the least above those written plainly. -/
def plainBelow : Magnitude := ⟨0x4202A05F20000000, by decide⟩

/-- The most digits after the point. -/
def fractionDigits : Nat := 10

/-- Whether a magnitude is written with an exponent. -/
def isScientific (m : Magnitude) : Bool := m.rank < plainFrom.rank || plainBelow.rank ≤ m.rank

def dropZeros (s : Text) : Text := (s.reverse.dropWhile (· == '0')).reverse

def exponentText (e : Int) : Text :=
  'e' :: (if e < 0 then '-' else '+') :: Nat.toDigits 10 e.natAbs

/-- One digit, the remaining digits as a fraction, and the exponent of the first digit. -/
def scientificText (d : Decimal) : Text :=
  match Nat.toDigits 10 d.coefficient with
  | [] => []
  | first :: others =>
    let fraction := dropZeros others
    let mantissa := if fraction.isEmpty then [first] else first :: '.' :: fraction
    mantissa ++ exponentText (d.exponent + others.length)

/-- The shortest text if its fraction is short enough; else the shortest text of the nearest number
to the value rounded to the most digits after the point. -/
def plainText (m : Magnitude) : Text :=
  if m.shortest.places ≤ fractionDigits then m.shortest.plain
  else
    let rounded := m.roundToPlaces fractionDigits
    match rounded.nearest? with
    | some m => m.shortest.plain
    | none => rounded.plain

/-- The text of a magnitude. A magnitude that rounds into the plain range is written as the rounded
one would be. -/
def magnitudeText (m : Magnitude) : Text :=
  if isScientific m then
    let rounded := m.roundToDigits (fractionDigits + 1)
    match rounded.nearest? with
    | some m => if isScientific m then scientificText rounded else plainText m
    | none => scientificText rounded
  else plainText m

def text : Binary64 → Text
  | .nan _ => "Error".toList
  | .infinite negative => Binary64.signed negative "Infinity".toList
  | .finite negative m =>
    if m.rank = 0 then ['0'] else Binary64.signed negative (magnitudeText m)

end Calculator.Display
