import Calculator.Numeric.Rounding

/-! Numbers of double precision: finite ones with a sign and a magnitude, two infinities, and values
that are not numbers. Order, sign and classification go by rank. -/

namespace Calculator

-- Powers are those of the core library, whichever others an importing module knows.
attribute [local instance (high)] instPowNat

/-- A finite magnitude of double precision, given by its rank in increasing order. -/
structure Magnitude where
  rank : Nat
  rank_lt : rank < magnitudeCount
deriving DecidableEq

namespace Magnitude

def zero : Magnitude := ⟨0, by decide⟩

/-- The value in units of `2 ^ -1074`. -/
def units (m : Magnitude) : Nat := unitsOfRank m.rank

/-- The magnitude nearest to `n / d` units, unless that lies beyond the largest one. -/
def nearest? (n d : Nat) : Option Magnitude :=
  if h : nearestRank n d < magnitudeCount then some ⟨nearestRank n d, h⟩ else none

end Magnitude

/-- A number of double precision. A value that is not a number is quiet or signaling; its sign and
the rest of its bits never matter. -/
inductive Binary64 where
  | nan (signaling : Bool)
  | infinite (negative : Bool)
  | finite (negative : Bool) (magnitude : Magnitude)
deriving DecidableEq

namespace Binary64

/-- The quiet value that is not a number, which is what an operation without a result gives. -/
def notANumber : Binary64 := nan false

/-- Zero with the sign bit clear. -/
def zero : Binary64 := finite false .zero

/-- `n / d` units with a sign, rounded to nearest; an infinity beyond the largest magnitude. -/
def rounded (negative : Bool) (n d : Nat) : Binary64 :=
  match Magnitude.nearest? n d with
  | some m => finite negative m
  | none => infinite negative

/-- The number nearest to a natural number. -/
def ofNat (n : Nat) : Binary64 := rounded false (n * unitsPerOne) 1

/-- The nearest number to the ratio of a circle's circumference to its diameter. -/
def pi : Binary64 := finite false ⟨0x400921FB54442D18, by decide⟩

/-- The nearest number to the base of the natural logarithm. -/
def euler : Binary64 := finite false ⟨0x4005BF0A8B145769, by decide⟩

/-- Whether the number is neither an infinity nor not a number. -/
def isFinite : Binary64 → Bool
  | finite _ _ => true
  | _ => false

/-- Whether the number is zero, of either sign. -/
def isZero : Binary64 → Bool
  | finite _ m => m.rank == 0
  | _ => false

/-- Whether the number is finite and has a fractional part. -/
def hasFraction : Binary64 → Bool
  | finite _ m => m.units % unitsPerOne != 0
  | _ => false

/-- The place in the order of all numbers, with both zeros in one place. -/
def place? : Binary64 → Option Int
  | nan _ => none
  | infinite false => some magnitudeCount
  | infinite true => some (-magnitudeCount)
  | finite false m => some m.rank
  | finite true m => some (-m.rank)

/-- Whether `x` comes before `y`; never so when one is not a number. -/
def lt (x y : Binary64) : Bool :=
  match x.place?, y.place? with
  | some a, some b => a < b
  | _, _ => false

def isNegative (x : Binary64) : Bool := x.lt zero

/-- The word of 64 bits that encodes the number in the standard interchange format. -/
def toBits : Binary64 → Nat
  | nan signaling => if signaling then 0x7FF0000000000001 else 0x7FF8000000000000
  | infinite negative => negative.toNat * 2 ^ (63 : Nat) + magnitudeCount
  | finite negative m => negative.toNat * 2 ^ (63 : Nat) + m.rank

/-- The number that a word of 64 bits encodes. Beyond the rank of an infinity, the words up to the
middle of the row are signaling. -/
def ofBits (word : Nat) : Binary64 :=
  let negative := word / 2 ^ (63 : Nat) % 2 == 1
  let rank := word % 2 ^ (63 : Nat)
  if h : rank < magnitudeCount then finite negative ⟨rank, h⟩
  else if rank = magnitudeCount then infinite negative
  else nan (rank < magnitudeCount + 2 ^ (51 : Nat))

end Binary64

end Calculator
