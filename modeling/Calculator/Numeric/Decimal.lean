import Calculator.Text.Basic
import Calculator.Numeric.Binary64

/-! Decimal numbers: a coefficient and a power of ten. A decimal has a nearest magnitude and a plain
positional text without an exponent. -/

namespace Calculator

-- Powers are those of the core library, whichever others an importing module knows.
attribute [local instance (high)] instPowNat

/-- The least `d`, from a given one on, with `n < 10 ^ d`. -/
def digitCountFrom (n d : Nat) : Nat :=
  if h : 10 ^ d ≤ n then
    have : d < n := Nat.lt_of_lt_of_le (Nat.lt_pow_self (by decide)) h
    digitCountFrom n (d + 1)
  else d
termination_by n - d

/-- The number of decimal digits; zero has none. It is at least three tenths of that of binary
digits. -/
def digitCount (n : Nat) : Nat := if n = 0 then 0 else digitCountFrom n (n.log2 * 3 / 10)

/-- The number `coefficient * 10 ^ exponent`. -/
structure Decimal where
  coefficient : Nat
  exponent : Int
deriving DecidableEq

namespace Decimal

/-- The magnitude nearest to the decimal, unless that lies beyond the largest one. Decimals from
`10 ^ 400` on and those below `10 ^ -400` are decided without being written out. -/
def nearest? (d : Decimal) : Option Magnitude :=
  if d.coefficient = 0 then some .zero
  else if 400 ≤ d.exponent then none
  else if d.exponent + (d.coefficient.log2 + 1) < -400 then some .zero
  else match d.exponent with
    | .ofNat e => Magnitude.nearest? (d.coefficient * 10 ^ e * unitsPerOne) 1
    | .negSucc e => Magnitude.nearest? (d.coefficient * unitsPerOne) (10 ^ (e + 1))

/-- The nearest number with a sign; an infinity beyond the largest magnitude. -/
def toBinary64 (negative : Bool) (d : Decimal) : Binary64 :=
  match d.nearest? with
  | some m => .finite negative m
  | none => .infinite negative

/-- How many digits stand after the point in the plain text. -/
def places (d : Decimal) : Nat := (-d.exponent).toNat

/-- The digits before the point, and after a point as many digits as there are places. -/
def plain (d : Decimal) : Text :=
  match d.exponent with
  | .ofNat e => Nat.toDigits 10 (d.coefficient * 10 ^ e)
  | .negSucc e =>
    Nat.toDigits 10 (d.coefficient / 10 ^ (e + 1)) ++
      '.' :: (Nat.toDigits 10 (d.coefficient % 10 ^ (e + 1))).leftpad (e + 1) '0'

end Decimal

end Calculator
