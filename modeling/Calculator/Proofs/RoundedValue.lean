import Calculator.Proofs.DisplayText
import Mathlib.Data.Int.Log
import Mathlib.Data.Rat.Floor

/-! What the text of a number loses: its value is rounded once, to ten digits after the point in the
plain range and to eleven digits outside, and the text evaluates to the number nearest to that. Where
the shortest text is short enough to stand unrounded, rounding it changes nothing, since the nearest
point of a decimal grid reads back as a magnitude if any point of the grid does. -/

namespace Calculator

/-! ### Neighbours -/

/-- Both neighbours of a rank lie equally far away, except at the start of a row, where the one above
lies farther. -/
theorem unitsOfRank_neighbours {rank : ℕ} (h : rank ≠ 0) :
    unitsOfRank (rank - 1) + unitsOfRank (rank + 1) = 2 * unitsOfRank rank ∨
      2 * unitsOfRank rank ≤ unitsOfRank (rank - 1) + unitsOfRank (rank + 1) ∧
        ∃ row, unitsOfRank rank = 2 ^ 52 * 2 ^ row ∧
          unitsOfRank (rank + 1) = unitsOfRank rank + 2 ^ row := by
  obtain ⟨row, k, rfl, hk, hRow⟩ := exists_row rank
  have hHere := unitsOfRank_row hk.le hRow
  have hNext : unitsOfRank (row * 2 ^ 52 + k + 1) = (k + 1) * 2 ^ row := by
    rw [Nat.add_assoc, unitsOfRank_row (by omega) (by omega)]
  rw [hHere, hNext]
  by_cases hStart : row ≠ 0 ∧ k = 2 ^ 52
  · obtain ⟨hLater, rfl⟩ := hStart
    obtain ⟨before, rfl⟩ := Nat.exists_eq_succ_of_ne_zero hLater
    have hPrevious : unitsOfRank ((before + 1) * 2 ^ 52 + 2 ^ 52 - 1) = (2 ^ 53 - 1) * 2 ^ before := by
      rw [show (before + 1) * 2 ^ 52 + 2 ^ 52 - 1 = before * 2 ^ 52 + (2 ^ 53 - 1) by omega,
        unitsOfRank_row (by decide) (.inr (by decide))]
    rw [hPrevious, pow_succ 2 before]
    exact .inr ⟨by omega, before + 1, by ring, by ring⟩
  · obtain ⟨j, rfl⟩ : ∃ j, k = j + 1 := Nat.exists_eq_succ_of_ne_zero (by omega)
    have hPrevious : unitsOfRank (row * 2 ^ 52 + (j + 1) - 1) = j * 2 ^ row := by
      rw [← Nat.add_assoc, Nat.add_sub_cancel, unitsOfRank_row (by omega) (by omega)]
    rw [hPrevious]
    exact .inl (by ring)

theorem roundHalfEven_mul (k : ℕ) {d : ℕ} (hd : 0 < d) : roundHalfEven (k * d) d = k :=
  (roundHalfEven_eq_iff hd).mpr ⟨by omega, by omega, fun _ => ⟨by omega, by omega⟩⟩

namespace Magnitude

theorem bounds_of_neighbours {m : Magnitude} (hRank : m.rank ≠ 0) :
    4 * m.decimalUnits ≤ m.lowerBound + m.upperBound ∧
      (m.lowerBound + m.upperBound = 4 * m.decimalUnits ∨
        ∃ row, m.decimalUnits = 2 ^ 52 * 2 ^ row * decimalUnitsPerUnit ∧
          m.upperBound = 2 * m.decimalUnits + 2 ^ row * decimalUnitsPerUnit) := by
  rw [lowerBound_eq, upperBound_eq, decimalUnits_eq, units]
  rcases unitsOfRank_neighbours hRank with hEqual | ⟨hFarther, row, hHere, hNext⟩
  · have := congrArg (· * decimalUnitsPerUnit) hEqual
    simp only [Nat.add_mul, Nat.mul_assoc] at this ⊢
    omega
  · have := Nat.mul_le_mul_right decimalUnitsPerUnit hFarther
    have hUpper : (unitsOfRank m.rank + unitsOfRank (m.rank + 1)) * decimalUnitsPerUnit =
        2 * (unitsOfRank m.rank * decimalUnitsPerUnit) + 2 ^ row * decimalUnitsPerUnit := by
      rw [hNext]
      ring
    refine ⟨?_, .inr ⟨row, by rw [hHere], hUpper⟩⟩
    simp only [Nat.add_mul, Nat.mul_assoc] at this ⊢
    omega

/-! ### Rounding to places -/

/-- At the start of a row whose magnitudes lie a step of the last digit apart, the value itself is a
multiple of that step. -/
theorem ten_pow_dvd_of_row {row : ℕ} (h : 10 ^ Display.lastPlace ≤ 2 ^ row * decimalUnitsPerUnit) :
    10 ^ Display.lastPlace ∣ 2 ^ 52 * 2 ^ row * decimalUnitsPerUnit := by
  have hRow : Display.lastPlace - 52 ≤ row := by
    by_contra hEarly
    have hPower : 2 ^ row ≤ 2 ^ (Display.lastPlace - 53) :=
      Nat.pow_le_pow_right (by decide) (by omega)
    have hSmall : 2 ^ (Display.lastPlace - 53) * decimalUnitsPerUnit < 10 ^ Display.lastPlace := by
      decide +kernel
    exact absurd h (not_le.mpr ((Nat.mul_le_mul_right _ hPower).trans_lt hSmall))
  have hUnit : 10 ^ Display.lastPlace ∣
      2 ^ 52 * 2 ^ (Display.lastPlace - 52) * decimalUnitsPerUnit := by
    decide +kernel
  have hPower : 2 ^ (Display.lastPlace - 52) ∣ 2 ^ row := Nat.pow_dvd_pow 2 hRow
  exact hUnit.trans (Nat.mul_dvd_mul_right (Nat.mul_dvd_mul_left _ hPower) _)

/-- If any point of the grid of the last digit reads back, so does the nearest one. -/
theorem readsBack_roundHalfEven {m : Magnitude} {k : ℕ} (hRank : m.rank ≠ 0)
    (h : m.readsBack (k * 10 ^ Display.lastPlace) = true) :
    m.readsBack (roundHalfEven m.decimalUnits (10 ^ Display.lastPlace) * 10 ^ Display.lastPlace) =
      true := by
  have hStep : 0 < 10 ^ Display.lastPlace := Nat.pow_pos (by decide)
  have hValue := m.readsBack_decimalUnits
  obtain ⟨hFarther, hNeighbours⟩ := bounds_of_neighbours hRank
  obtain ⟨hLower, hUpper, -⟩ := roundHalfEven_bounds m.decimalUnits hStep
  have hMultiple (q : ℕ) (hq : m.decimalUnits = q * 10 ^ Display.lastPlace) :
      roundHalfEven m.decimalUnits (10 ^ Display.lastPlace) = q := by
    rw [hq, roundHalfEven_mul q hStep]
  have hRowStart (row : ℕ) := @ten_pow_dvd_of_row row
  generalize roundHalfEven m.decimalUnits (10 ^ Display.lastPlace) = r at *
  generalize 10 ^ Display.lastPlace = step at *
  rcases Nat.lt_or_ge (k * step) m.decimalUnits with hBelow | hAbove
  · rcases Nat.lt_or_ge m.decimalUnits (r * step) with hOver | hUnder
    · -- the points lie on both sides, and the neighbour above is no nearer than the one below
      have hApart : (k + 1) * step ≤ r * step :=
        Nat.mul_le_mul_right step (Nat.lt_of_mul_lt_mul_right (hBelow.trans hOver))
      rw [Nat.succ_mul] at hApart
      rw [readsBack_iff_bounds] at *
      omega
    · have hLe : k ≤ r := le_of_two_mul_le hStep (by omega)
      exact readsBack_of_le h hValue (Nat.mul_le_mul_right step hLe) hUnder
  · rcases Nat.lt_or_ge (r * step) m.decimalUnits with hUnder | hOver
    · have hApart : (r + 1) * step ≤ k * step :=
        Nat.mul_le_mul_right step (Nat.lt_of_mul_lt_mul_right (hUnder.trans_le hAbove))
      rw [Nat.succ_mul] at hApart
      rw [readsBack_iff_bounds] at *
      rcases hNeighbours with hEqual | ⟨row, hStart, hNext⟩
      · omega
      · -- the steps up are so long here that the value lies on the grid
        obtain ⟨q, hq⟩ := hRowStart row (by omega)
        rw [Nat.mul_comm step] at hq
        have := hMultiple q (hStart.trans hq)
        rw [this, ← hStart.trans hq] at hUnder
        omega
    · have hLe : r ≤ k := le_of_two_mul_le hStep (by omega)
      exact readsBack_of_le hValue h hOver (Nat.mul_le_mul_right step hLe)

/-- A magnitude whose shortest decimal has few enough digits after the point is the one that its value
rounded to that many reads as. -/
theorem nearest?_roundToPlaces_of_places_le {m : Magnitude} (hRank : m.rank ≠ 0)
    (h : m.shortest.places ≤ Display.fractionDigits) :
    (m.roundToPlaces Display.fractionDigits).nearest? = some m := by
  obtain ⟨place, k, hShortest, hReads, -⟩ := m.exists_shortestFrom (digitCount m.decimalUnits)
  rw [shortest, if_neg hRank, hShortest, places_decimalAt] at h
  have hCoarse : Display.lastPlace ≤ place := by
    unfold Display.fractionDigits at h
    unfold Display.lastPlace
    omega
  obtain ⟨zeros, rfl⟩ := Nat.exists_eq_add_of_le hCoarse
  rw [Nat.add_comm, pow_add, ← Nat.mul_assoc] at hReads
  rw [Display.roundToPlaces_eq, nearest?_decimalAt_iff]
  exact readsBack_roundHalfEven hRank hReads

/-! ### Rounding to digits -/

/-- A value rounded to eleven digits has eleven digits, and no power of ten lies between it and the
value. -/
theorem exists_roundToDigits_eq {m : Magnitude} (hRank : m.rank ≠ 0) :
    ∃ place k, m.roundToDigits 11 = decimalAt place k ∧ 10 ^ 10 ≤ k ∧ k < 10 ^ 11 ∧
      (∀ p, 10 ^ p ≤ m.decimalUnits → 10 ^ p ≤ k * 10 ^ place) ∧
      (∀ p, m.decimalUnits < 10 ^ p → k * 10 ^ place ≤ 10 ^ p) := by
  obtain ⟨before, hDigits⟩ := exists_digitCount hRank
  generalize hPlace : before + 1 = place at hDigits
  have hPower : 0 < 10 ^ place := Nat.pow_pos (by decide)
  obtain ⟨hLow, hHigh⟩ := digitCount_eq_add_eleven_iff.mp hDigits
  obtain ⟨hLower, hUpper, -⟩ := roundHalfEven_bounds m.decimalUnits hPower
  have hMin : 10 ^ 10 ≤ roundHalfEven m.decimalUnits (10 ^ place) :=
    le_of_two_mul_le hPower (by omega)
  have hMax : roundHalfEven m.decimalUnits (10 ^ place) ≤ 10 ^ 11 :=
    le_of_two_mul_le hPower (by omega)
  have hFrom (p : ℕ) (hp : 10 ^ p ≤ m.decimalUnits) :
      10 ^ p ≤ roundHalfEven m.decimalUnits (10 ^ place) * 10 ^ place := by
    have hDigit : p < place + 11 := hDigits ▸ lt_digitCount_iff.mpr hp
    calc 10 ^ p ≤ 10 ^ (10 + place) := Nat.pow_le_pow_right (by decide) (by omega)
      _ = 10 ^ 10 * 10 ^ place := pow_add ..
      _ ≤ _ := Nat.mul_le_mul_right _ hMin
  have hBelow (p : ℕ) (hp : m.decimalUnits < 10 ^ p) :
      roundHalfEven m.decimalUnits (10 ^ place) * 10 ^ place ≤ 10 ^ p := by
    have hDigit : place + 11 ≤ p := hDigits ▸ digitCount_le_iff.mpr hp
    calc _ ≤ 10 ^ 11 * 10 ^ place := Nat.mul_le_mul_right _ hMax
      _ = 10 ^ (11 + place) := (pow_add ..).symm
      _ ≤ 10 ^ p := Nat.pow_le_pow_right (by decide) (by omega)
  rw [roundToDigits_of_digitCount 10 hDigits]
  by_cases hCarry : roundHalfEven m.decimalUnits (10 ^ place) = 10 ^ 11
  · have hSame : 10 ^ 10 * 10 ^ (place + 1) = 10 ^ 11 * 10 ^ place := by
      rw [pow_succ' 10 place]
      ring
    rw [hCarry, ← hSame] at hFrom hBelow
    exact ⟨place + 1, 10 ^ 10, if_pos hCarry, le_rfl, by decide, hFrom, hBelow⟩
  · exact ⟨place, _, if_neg hCarry, hMin, lt_of_le_of_ne hMax hCarry, hFrom, hBelow⟩

/-- The exact value. -/
def value (m : Magnitude) : ℚ := m.units / unitsPerOne

theorem value_pos_iff {m : Magnitude} : 0 < m.value ↔ m.rank ≠ 0 := by
  have hUnits : 0 < m.units ↔ 0 < m.rank := unitsOfRank_strictMono.lt_iff_lt (a := 0)
  rw [value, div_pos_iff_of_pos_right unitsPerOne_pos, Nat.cast_pos, hUnits, Nat.pos_iff_ne_zero]

theorem value_div (m : Magnitude) (place : ℕ) :
    m.value / 10 ^ (place - 1074 : ℤ) = m.decimalUnits / (10 ^ place : ℕ) := by
  rw [value, decimalUnits_eq, decimalUnitsPerUnit, cast_unitsPerOne,
    show (1074 : ℤ) = (1074 : ℕ) from rfl]
  generalize 1074 = n
  rw [zpow_sub₀ (by norm_num), zpow_natCast, zpow_natCast,
    show (10 : ℚ) ^ n = 2 ^ n * 5 ^ n by rw [← mul_pow]; norm_num]
  push_cast
  field_simp

/-- The exponent of the first digit, from the number of decimal units. -/
theorem log_value {m : Magnitude} {place : ℕ} (h : digitCount m.decimalUnits = place + 11) :
    Int.log 10 m.value = place - 1074 + 10 := by
  obtain ⟨hLow, hHigh⟩ := digitCount_eq_add_eleven_iff.mp h
  have hStep : (0 : ℚ) < 10 ^ (place - 1074 : ℤ) := by positivity
  have hPower : (0 : ℚ) < (10 ^ place : ℕ) := by positivity
  have hLower : (10 : ℚ) ^ 10 ≤ m.value / 10 ^ (place - 1074 : ℤ) := by
    rw [value_div, le_div_iff₀ hPower]
    exact_mod_cast hLow
  have hUpper : m.value / 10 ^ (place - 1074 : ℤ) < (10 : ℚ) ^ 11 := by
    rw [value_div, div_lt_iff₀ hPower]
    exact_mod_cast hHigh
  rw [le_div_iff₀ hStep] at hLower
  rw [div_lt_iff₀ hStep] at hUpper
  have hPos : 0 < m.value := lt_of_lt_of_le (by positivity) hLower
  have hFrom : ((10 : ℕ) : ℚ) ^ (place - 1074 + 10 : ℤ) ≤ m.value := by
    rw [zpow_add₀ (by norm_num), mul_comm]
    exact_mod_cast hLower
  have hBelow : m.value < ((10 : ℕ) : ℚ) ^ (place - 1074 + 11 : ℤ) := by
    rw [zpow_add₀ (by norm_num), mul_comm]
    exact_mod_cast hUpper
  have := (Int.zpow_le_iff_le_log (by decide) hPos).mp hFrom
  have := (Int.lt_zpow_iff_log_lt (by decide) hPos).mp hBelow
  omega

end Magnitude

/-! ### Numbers nearest to decimals -/

/-- The number of a rank, with a sign; beyond the largest magnitude an infinity. -/
def Binary64.ofRank (negative : Bool) (rank : ℕ) : Binary64 :=
  if h : rank < magnitudeCount then .finite negative ⟨rank, h⟩ else .infinite negative

theorem Binary64.rounded_eq_ofRank (negative : Bool) (n d : ℕ) :
    rounded negative n d = ofRank negative (nearestRank n d) := by
  -- The function is opened before it has arguments: at these it would be computed.
  suffices h : ∀ f, f = @rounded → f negative n d = ofRank negative (nearestRank n d) from h _ rfl
  intro f hf
  delta rounded at hf
  subst hf
  beta_reduce
  rw [Magnitude.nearest?_eq_ofRank?, Magnitude.ofRank?, ofRank]
  generalize nearestRank n d = rank
  by_cases hFinite : rank < magnitudeCount
  · rw [dif_pos hFinite, dif_pos hFinite]
  · rw [dif_neg hFinite, dif_neg hFinite]

namespace Decimal

theorem toBinary64_eq_ofRank (negative : Bool) {d : Decimal} {rank : ℕ}
    (h : RoundsTo unitsOfRank d.units rank) : d.toBinary64 negative = .ofRank negative rank := by
  obtain ⟨rank', hRank', hNearest⟩ := d.exists_rank
  obtain rfl := hRank'.unique unitsOfRank_strictMono h
  rw [toBinary64, hNearest, Magnitude.ofRank?, Binary64.ofRank]
  by_cases hFinite : rank' < magnitudeCount
  · rw [dif_pos hFinite, dif_pos hFinite]
  · rw [dif_neg hFinite, dif_neg hFinite]

theorem toBinary64_true (d : Decimal) : d.toBinary64 true = -d.toBinary64 false := by
  rw [toBinary64, toBinary64]
  cases d.nearest? with
  | some m => rfl
  | none => rfl

end Decimal

namespace Display

open Magnitude

/-! ### Outside the plain range -/

/-- The place, in decimal units, of the first digit beyond the plain range. -/
def beyondPlace : ℕ := 1084

/-- The least magnitude above the plain range is the one that `10 ^ 10` reads as. -/
theorem readsBack_plainBelow : plainBelow.readsBack (10 ^ beyondPlace) = true := by
  decide +kernel

/-- Outside the plain range a value lies below one step of the last digit, or it has a digit beyond
the range. -/
theorem decimalUnits_of_scientific {m : Magnitude} (h : isScientific m = true) :
    m.decimalUnits < 10 ^ lastPlace ∨ 10 ^ beyondPlace ≤ m.decimalUnits := by
  rw [isScientific, Bool.or_eq_true, decide_eq_true_eq, decide_eq_true_eq] at h
  rcases h with hBefore | hBeyond
  · left
    have hUnits : m.units ≤ unitsOfRank (plainFrom.rank - 1) :=
      unitsOfRank_strictMono.monotone (Nat.le_pred_of_lt hBefore)
    have hSize : unitsOfRank (plainFrom.rank - 1) * decimalUnitsPerUnit < 10 ^ lastPlace := by
      decide +kernel
    rw [decimalUnits_eq]
    exact (Nat.mul_le_mul_right _ hUnits).trans_lt hSize
  · right
    exact le_trans (by decide +kernel) (decimalUnits_le_of_rank_le hBeyond)

/-- The only magnitude of the plain range that a value outside rounds to is the least one. -/
theorem eq_plainFrom {m m' : Magnitude} (hRank : m.rank ≠ 0) (h : isScientific m = true)
    (hRounded : (m.roundToDigits 11).nearest? = some m') (hPlain : isScientific m' = false) :
    m' = plainFrom := by
  obtain ⟨place, k, hDecimal, -, -, hFrom, hBelow⟩ := exists_roundToDigits_eq hRank
  rw [hDecimal, nearest?_decimalAt_iff] at hRounded
  obtain ⟨hLeast, hEnd⟩ := isScientific_eq_false_iff.mp hPlain
  rcases decimalUnits_of_scientific h with hSmall | hLarge
  · have hMost := rank_le_of_readsBack hRounded readsBack_plainFrom (hBelow lastPlace hSmall)
    obtain ⟨rank, _⟩ := m'
    obtain rfl : rank = plainFrom.rank := hMost.antisymm hLeast
    rfl
  · have := rank_le_of_readsBack readsBack_plainBelow hRounded (hFrom beyondPlace hLarge)
    omega

theorem places_shortest_plainFrom : plainFrom.shortest.places ≤ fractionDigits :=
  places_shortest_le (k := 1) (by decide) (ten_pow_le_of_plain le_rfl)
    (by rw [Nat.one_mul]; exact readsBack_plainFrom)

/-! ### The text's value -/

/-- The exact value, rounded to the digits of the text. -/
def rounded (m : Magnitude) : Decimal :=
  if isScientific m then m.roundToDigits (fractionDigits + 1) else m.roundToPlaces fractionDigits

theorem rounded_of_scientific {m : Magnitude} (h : isScientific m = true) :
    rounded m = m.roundToDigits 11 := if_pos h

theorem rounded_of_plain {m : Magnitude} (h : isScientific m = false) :
    rounded m = m.roundToPlaces fractionDigits := by
  rw [rounded, if_neg (by rw [h]; exact Bool.false_ne_true)]

/-- A plain text is the shortest text of what the rounded value reads as, whether it was rounded or
not. -/
theorem exists_nearest?_rounded {m : Magnitude} (h : isScientific m = false) :
    ∃ m', (rounded m).nearest? = some m' ∧ plainText m = m'.shortest.plain := by
  rw [rounded_of_plain h]
  by_cases hPlaces : m.shortest.places ≤ fractionDigits
  · exact ⟨m, nearest?_roundToPlaces_of_places_le (rank_ne_zero_of_plain h) hPlaces,
      plainText_of_places_le hPlaces⟩
  · obtain ⟨m', hNearest, -, -⟩ := exists_nearest?_roundToPlaces h
    exact ⟨m', hNearest, plainText_of_nearest? hPlaces hNearest⟩

open Token in
/-- The text of a magnitude is a numeral of the number nearest to its rounded value. -/
theorem isNumeral_rounded {m : Magnitude} (hRank : m.rank ≠ 0) :
    IsNumeral (magnitudeText m) ((rounded m).toBinary64 false) := by
  cases hScientific : isScientific m with
  | false =>
    obtain ⟨m', hNearest, hText⟩ := exists_nearest?_rounded hScientific
    rw [magnitudeText_of_plain hScientific, hText, Decimal.toBinary64_of_nearest? false hNearest]
    exact isNumeral_shortest m'
  | true =>
    rw [rounded_of_scientific hScientific]
    rcases magnitudeText_cases hScientific with ⟨m', hNearest, hPlain, hText⟩ | ⟨-, hText⟩
    · rw [hText, Decimal.toBinary64_of_nearest? false hNearest,
        eq_plainFrom hRank hScientific hNearest hPlain,
        plainText_of_places_le places_shortest_plainFrom]
      exact isNumeral_shortest plainFrom
    · rw [hText]
      exact isNumeral_scientificText _

/-- The exponent of the last digit of a rounded value: ten digits after the point from `1e-10` up to
`1e10`, and ten digits after the first one outside. -/
def lastExponent (m : Magnitude) : ℤ :=
  if plainFrom.rank ≤ m.rank ∧ m.rank < plainBelow.rank then -10 else Int.log 10 m.value - 10

/-- The rounded value is the multiple of the last digit's step that is nearest to the exact value. -/
theorem exists_roundsTo_rounded {m : Magnitude} (hRank : m.rank ≠ 0) :
    ∃ k : ℕ, RoundsTo id (m.value / 10 ^ lastExponent m) k ∧
      (rounded m).value = Decimal.value ⟨k, lastExponent m⟩ := by
  cases hScientific : isScientific m with
  | false =>
    have hExponent : lastExponent m = lastPlace - 1074 :=
      if_pos (isScientific_eq_false_iff.mp hScientific)
    refine ⟨roundHalfEven m.decimalUnits (10 ^ lastPlace), ?_, ?_⟩
    · rw [hExponent, value_div]
      exact roundsTo_roundHalfEven _ (Nat.pow_pos (by decide))
    · rw [rounded_of_plain hScientific, roundToPlaces_eq, hExponent]
      rfl
  | true =>
    obtain ⟨before, hDigits⟩ := exists_digitCount hRank
    generalize hPlace : before + 1 = place at hDigits
    have hOutside : ¬(plainFrom.rank ≤ m.rank ∧ m.rank < plainBelow.rank) := by
      rw [← isScientific_eq_false_iff, hScientific]
      decide
    have hExponent : lastExponent m = place - 1074 := by
      rw [lastExponent, if_neg hOutside, log_value hDigits]
      exact Int.add_sub_cancel _ 10
    refine ⟨roundHalfEven m.decimalUnits (10 ^ place), ?_, ?_⟩
    · rw [hExponent, value_div]
      exact roundsTo_roundHalfEven _ (Nat.pow_pos (by decide))
    · rw [rounded_of_scientific hScientific, value_roundToDigits 10 hDigits, hExponent]
      rfl

open Token in
theorem evalText_signed_decimal (angle : Angle) (negative : Bool) {s : Text} {d : Decimal}
    (h : IsNumeral s (d.toBinary64 false)) :
    evalText angle (Binary64.signed negative s) = .ok (d.toBinary64 negative) := by
  cases negative with
  | false => exact evalText_numeral angle h
  | true =>
    rw [Decimal.toBinary64_true]
    exact evalText_minus angle h

/-- The text of a number that is not zero evaluates to the number nearest to the rounded value, an
infinity if that lies beyond the largest one. A shortest text that stands unrounded is no exception:
the rounded value then reads as the magnitude itself. -/
theorem evalText_text (angle : Angle) (negative : Bool) {m : Magnitude} (hRank : m.rank ≠ 0) :
    (∃ k rank : ℕ, RoundsTo id (m.value / 10 ^ lastExponent m) k ∧
      RoundsTo unitsOfRank (Decimal.units ⟨k, lastExponent m⟩) rank ∧
      evalText angle (text (.finite negative m)) = .ok (.ofRank negative rank)) ∧
    (isScientific m = false → m.shortest.places ≤ fractionDigits →
      (m.roundToPlaces fractionDigits).nearest? = some m) := by
  constructor
  · obtain ⟨k, hRounds, hValue⟩ := exists_roundsTo_rounded hRank
    obtain ⟨rank, hNearest, -⟩ := Decimal.exists_rank ⟨k, lastExponent m⟩
    refine ⟨k, rank, hRounds, hNearest, ?_⟩
    rw [text_finite negative hRank, evalText_signed_decimal angle negative (isNumeral_rounded hRank),
      Decimal.toBinary64_congr negative hValue, Decimal.toBinary64_eq_ofRank negative hNearest]
  · intro _ hPlaces
    exact nearest?_roundToPlaces_of_places_le hRank hPlaces

/-- The number `-9.99999999999e-11`, which is carried into the plain range. -/
theorem evalText_text_of_carried :
    let m : Magnitude := ⟨0x3DDB7CDFD9D79F82, by decide⟩
    m.rank ≠ 0 ∧ ∃ k rank : ℕ, RoundsTo id (m.value / 10 ^ lastExponent m) k ∧
      RoundsTo unitsOfRank (Decimal.units ⟨k, lastExponent m⟩) rank ∧
      evalText .radians (text (.finite true m)) = .ok (.ofRank true rank) := by
  intro m
  have hRank : m.rank ≠ 0 := by decide
  exact ⟨hRank, (evalText_text .radians true hRank).1⟩

end Display

end Calculator
