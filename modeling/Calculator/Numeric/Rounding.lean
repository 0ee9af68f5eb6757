/-! Rounding to the nearest integer and to the nearest binary number of 53 digits, halves to even.
The finite magnitudes of double precision are numbered by rank, zero first, each one more than the
last; a magnitude is a whole number of units of `2 ^ -1074`, and `nearestRank` finds the rank of
the magnitude nearest to a fraction of units. -/

namespace Calculator

-- Powers are those of the core library, whichever others an importing module knows.
attribute [local instance (high)] instPowNat

/-- The integer nearest to `n / d`; of two equally near, the even one. -/
def roundHalfEven (n d : Nat) : Nat :=
  let floor := n / d
  let twice := 2 * (n % d)
  if twice < d then floor else if d < twice then floor + 1 else floor + floor % 2

/-- The number of units of `2 ^ -1074` in the magnitude of a rank. The first two rows of `2 ^ 52`
ranks lie one unit apart; in each later row the distance doubles. -/
def unitsOfRank (rank : Nat) : Nat :=
  if rank < 2 ^ (52 : Nat) then rank
  else (2 ^ (52 : Nat) + rank % 2 ^ (52 : Nat)) * 2 ^ (rank / 2 ^ (52 : Nat) - 1)

/-- The rank of the magnitude nearest to `n / d` units; of two equally near, the even rank. The
ranks go on without end here. -/
def nearestRank (n d : Nat) : Nat :=
  let row := (n / d).log2 - 52
  row * 2 ^ (52 : Nat) + roundHalfEven n (d * 2 ^ row)

/-- How many finite magnitudes there are: 2047 rows of `2 ^ 52`. -/
def magnitudeCount : Nat := 2047 * 2 ^ (52 : Nat)

/-- The number of units in one. -/
def unitsPerOne : Nat := 2 ^ (1074 : Nat)

end Calculator
