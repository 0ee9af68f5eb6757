import Calculator.Proofs.Shortest

/-! Rounding to significant digits is stable: the magnitude that a rounded decimal reads as rounds to
the same decimal again, also where the two lie on different sides of a power of ten. Only at the end of
the range does a rounded decimal read as no magnitude. -/

namespace Calculator

/-- The rounded quotient is the only integer within half a unit, with an odd one strictly inside. -/
theorem roundHalfEven_eq_iff {n d k : ℕ} (hd : 0 < d) :
    roundHalfEven n d = k ↔
      2 * (k * d) ≤ 2 * n + d ∧ 2 * n ≤ 2 * (k * d) + d ∧
      (k % 2 = 1 → 2 * (k * d) < 2 * n + d ∧ 2 * n < 2 * (k * d) + d) := by
  constructor
  · rintro rfl
    exact roundHalfEven_bounds n hd
  · intro hk
    have hr := roundHalfEven_bounds n hd
    generalize roundHalfEven n d = r at *
    rcases Nat.lt_trichotomy r k with hLt | hEq | hGt
    · have : r * d + d ≤ k * d := by
        rw [← Nat.succ_mul]
        exact Nat.mul_le_mul_right d hLt
      have hNext : k ≤ r + 1 := by
        by_contra hFar
        have : (r + 2) * d ≤ k * d := Nat.mul_le_mul_right d (by omega)
        rw [Nat.add_mul] at this
        omega
      omega
    · exact hEq
    · have : k * d + d ≤ r * d := by
        rw [← Nat.succ_mul]
        exact Nat.mul_le_mul_right d hGt
      have hNext : r ≤ k + 1 := by
        by_contra hFar
        have : (k + 2) * d ≤ r * d := Nat.mul_le_mul_right d (by omega)
        rw [Nat.add_mul] at this
        omega
      omega

theorem le_of_two_mul_le {j k d : ℕ} (hd : 0 < d) (h : 2 * (j * d) ≤ 2 * (k * d) + d) : j ≤ k := by
  by_contra hGt
  have hStep : (k + 1) * d ≤ j * d := Nat.mul_le_mul_right d (not_le.mp hGt)
  rw [Nat.succ_mul] at hStep
  omega

/-! ### The size of a unit

In decimal units a unit lies between two powers of ten, and the power of ten eleven digits above it
lies in the upper half of its unit. -/

theorem decimalUnitsPerUnit_bounds :
    10 ^ 750 < decimalUnitsPerUnit ∧ decimalUnitsPerUnit ≤ 10 ^ 751 ∧
      decimalUnitsPerUnit < 2 * (10 ^ 11 * 10 ^ 750 % decimalUnitsPerUnit) := by
  decide +kernel

theorem ten_pow_lt_decimalUnitsPerUnit {n : ℕ} (h : n ≤ 750) : 10 ^ n < decimalUnitsPerUnit :=
  (pow_le_pow_right₀ (by decide) h).trans_lt decimalUnitsPerUnit_bounds.1

theorem decimalUnitsPerUnit_le_ten_pow {n : ℕ} (h : 751 ≤ n) : decimalUnitsPerUnit ≤ 10 ^ n :=
  decimalUnitsPerUnit_bounds.2.1.trans (pow_le_pow_right₀ (by decide) h)

theorem mod_eq_sub {x u n : ℕ} (hBelow : n * u ≤ x) (hAbove : x < n * u + u) :
    x % u = x - n * u := by
  rw [Nat.mod_eq_sub_mul_div, Nat.div_eq_of_lt_le hBelow (by rwa [Nat.succ_mul]), Nat.mul_comm]

namespace Magnitude

theorem decimalUnitsPerUnit_le_decimalUnits {m : Magnitude} (hRank : m.rank ≠ 0) :
    decimalUnitsPerUnit ≤ m.decimalUnits := by
  have hPos : unitsOfRank 0 < m.units := unitsOfRank_strictMono (Nat.pos_of_ne_zero hRank)
  rw [decimalUnits_eq]
  exact Nat.le_mul_of_pos_left _ (by omega)

theorem rank_ne_zero_of_decimalUnits_pos {m : Magnitude} (h : 0 < m.decimalUnits) :
    m.rank ≠ 0 := by
  intro hZero
  rw [decimalUnits_eq, units, hZero, show unitsOfRank 0 = 0 by decide, Nat.zero_mul] at h
  exact absurd h (Nat.lt_irrefl 0)

/-- The rounded decimal, with the place at which its last digit stands. -/
theorem roundToDigits_of_digitCount {m : Magnitude} {place : ℕ} (digits : ℕ)
    (h : digitCount m.decimalUnits = place + (digits + 1)) :
    m.roundToDigits (digits + 1) =
      if roundHalfEven m.decimalUnits (10 ^ place) = 10 ^ (digits + 1)
      then decimalAt (place + 1) (10 ^ digits)
      else decimalAt place (roundHalfEven m.decimalUnits (10 ^ place)) := by
  unfold roundToDigits roundAt
  rw [h, Nat.add_sub_cancel]
  dsimp only [decimalAt]
  split
  · rw [Nat.add_sub_cancel, Decimal.mk.injEq]
    exact ⟨rfl, by push_cast; ring⟩
  · rfl

/-- A carry into a new digit does not change the value. -/
theorem value_roundToDigits {m : Magnitude} {place : ℕ} (digits : ℕ)
    (h : digitCount m.decimalUnits = place + (digits + 1)) :
    (m.roundToDigits (digits + 1)).value =
      (decimalAt place (roundHalfEven m.decimalUnits (10 ^ place))).value := by
  rw [roundToDigits_of_digitCount digits h]
  split
  · rename_i hCarry
    have hPlace : ((place + 1 : ℕ) : ℤ) - 1074 = place - 1074 + 1 := by
      push_cast
      ring
    rw [hCarry, decimalAt, decimalAt, Decimal.value, Decimal.value, hPlace,
      zpow_add_one₀ (by norm_num)]
    push_cast
    ring
  · rfl

theorem nearest?_roundToDigits_iff {m m' : Magnitude} {place : ℕ} (digits : ℕ)
    (h : digitCount m.decimalUnits = place + (digits + 1)) :
    (m.roundToDigits (digits + 1)).nearest? = some m' ↔
      m'.readsBack (roundHalfEven m.decimalUnits (10 ^ place) * 10 ^ place) = true := by
  rw [Decimal.nearest?_congr (value_roundToDigits digits h), nearest?_decimalAt_iff]

/-- A magnitude and the one that its rounded value reads as round alike, for the latter lies no
farther from the rounded value. -/
theorem roundHalfEven_of_readsBack {m m' : Magnitude} {d : ℕ} (hd : 0 < d)
    (h : m'.readsBack (roundHalfEven m.decimalUnits d * d) = true) :
    roundHalfEven m'.decimalUnits d = roundHalfEven m.decimalUnits d := by
  obtain ⟨hLower, hUpper, hOdd⟩ := roundHalfEven_bounds m.decimalUnits hd
  have hNearest := nearest_of_readsBack (m := m) h
  rw [roundHalfEven_eq_iff hd]
  omega

/-- The step from a magnitude to the next one is a unit or vanishes against eleven digits. -/
theorem upperBound_le {m : Magnitude} {x step : ℕ} (hSize : x ≤ 10 ^ 11 * step)
    (hUpper : 2 * x ≤ m.upperBound) :
    2 * x ≤ 2 * m.decimalUnits + decimalUnitsPerUnit ∨ 2 * x ≤ 2 * m.decimalUnits + step := by
  rw [upperBound_eq, Nat.add_mul, ← decimalUnits_eq] at hUpper
  rcases unitsOfRank_succ_le m.rank with hUnit | hRelative
  · left
    rw [hUnit, Nat.add_mul, ← units, ← decimalUnits_eq] at hUpper
    omega
  · right
    have : 2 ^ 52 * (unitsOfRank (m.rank + 1) * decimalUnitsPerUnit) ≤
        (2 ^ 52 + 1) * m.decimalUnits := by
      rw [decimalUnits_eq, ← Nat.mul_assoc, ← Nat.mul_assoc]
      exact Nat.mul_le_mul_right _ hRelative
    omega

theorem decimalUnits_add_le {m m' : Magnitude} (h : m'.decimalUnits < m.decimalUnits) :
    m'.decimalUnits + decimalUnitsPerUnit ≤ m.decimalUnits := by
  rw [decimalUnits_eq, decimalUnits_eq] at *
  rw [← Nat.succ_mul]
  exact Nat.mul_le_mul_right _ (Nat.lt_of_mul_lt_mul_right h)

/-- When a magnitude is rounded down to a power of ten that reads as a magnitude below it, the latter
rounds up to the power of ten with one more digit. -/
theorem two_mul_ten_pow_le {m m' : Magnitude} {place : ℕ}
    (hReads : m'.readsBack (10 ^ 11 * 10 ^ place) = true)
    (hBelow : m'.decimalUnits < 10 ^ 11 * 10 ^ place)
    (hAbove : 10 ^ 11 * 10 ^ place ≤ m.decimalUnits)
    (hNear : m.decimalUnits ≤ m'.decimalUnits + 10 ^ (place + 1)) :
    2 * (10 ^ 11 * 10 ^ place) ≤ 2 * m'.decimalUnits + 10 ^ place := by
  have hUpper := (readsBack_iff_bounds.mp hReads).2.1
  rcases upperBound_le le_rfl hUpper with hUnit | hStep
  · rcases Nat.lt_trichotomy place 750 with hSmall | rfl | hLarge
    · -- two magnitudes lie farther apart than the rounding can bridge
      have hPower : 10 ^ (place + 1) < decimalUnitsPerUnit := ten_pow_lt_decimalUnitsPerUnit hSmall
      have hApart := decimalUnits_add_le (hBelow.trans_le hAbove)
      omega
    · have hHalf := decimalUnitsPerUnit_bounds.2.2
      have hPos := decimalUnitsPerUnit_pos
      rw [decimalUnits_eq] at hBelow hUnit
      generalize 10 ^ 11 * 10 ^ 750 = power at *
      rw [mod_eq_sub hBelow.le (by omega)] at hHalf
      omega
    · have hPower : decimalUnitsPerUnit ≤ 10 ^ place := decimalUnitsPerUnit_le_ten_pow hLarge
      omega
  · exact hStep

/-- A magnitude that is not zero has more than eleven digits. -/
theorem exists_digitCount {m : Magnitude} (hRank : m.rank ≠ 0) :
    ∃ place, digitCount m.decimalUnits = place + 1 + 11 := by
  have hDigits : 750 < digitCount m.decimalUnits := by
    rw [lt_digitCount_iff]
    exact (ten_pow_lt_decimalUnitsPerUnit le_rfl).le.trans
      (decimalUnitsPerUnit_le_decimalUnits hRank)
  exact ⟨digitCount m.decimalUnits - 12, by omega⟩

theorem digitCount_eq_add_eleven_iff {n place : ℕ} :
    digitCount n = place + 11 ↔ 10 ^ 10 * 10 ^ place ≤ n ∧ n < 10 ^ 11 * 10 ^ place := by
  rw [← pow_add, ← pow_add, Nat.add_comm 10, Nat.add_comm 11]
  exact digitCount_eq_succ_iff

/-- A magnitude within half a step of a power of ten rounds to it, from below as from above. -/
theorem roundToDigits_of_near {m : Magnitude} {place : ℕ}
    (hLower : 2 * (10 ^ 11 * 10 ^ place) ≤ 2 * m.decimalUnits + 10 ^ place)
    (hUpper : 2 * m.decimalUnits ≤ 2 * (10 ^ 11 * 10 ^ place) + 10 ^ place) :
    m.roundToDigits 11 = decimalAt (place + 1) (10 ^ 10) := by
  have hPower : 0 < 10 ^ place := Nat.pow_pos (by decide)
  have hNext : (10 : ℕ) ^ (place + 1) = 10 * 10 ^ place := pow_succ' 10 place
  rcases Nat.lt_or_ge m.decimalUnits (10 ^ 11 * 10 ^ place) with hBelow | hAbove
  · have hDigits : digitCount m.decimalUnits = place + 11 :=
      digitCount_eq_add_eleven_iff.mpr ⟨by omega, hBelow⟩
    have hRounded : roundHalfEven m.decimalUnits (10 ^ place) = 10 ^ 11 :=
      (roundHalfEven_eq_iff hPower).mpr ⟨hLower, by omega, fun hOdd => absurd hOdd (by decide)⟩
    rw [roundToDigits_of_digitCount 10 hDigits, hRounded, if_pos rfl]
  · have hDigits : digitCount m.decimalUnits = place + 1 + 11 :=
      digitCount_eq_add_eleven_iff.mpr ⟨by omega, by omega⟩
    have hRounded : roundHalfEven m.decimalUnits (10 ^ (place + 1)) = 10 ^ 10 :=
      (roundHalfEven_eq_iff (by omega)).mpr
        ⟨by omega, by omega, fun hOdd => absurd hOdd (by decide)⟩
    rw [roundToDigits_of_digitCount 10 hDigits, hRounded, if_neg (by decide)]

/-- The magnitude that a value rounded to eleven digits reads as is not zero, and rounds to the same
decimal. -/
theorem roundToDigits_of_nearest? {m m' : Magnitude} (hRank : m.rank ≠ 0)
    (h : (m.roundToDigits 11).nearest? = some m') :
    m'.rank ≠ 0 ∧ m'.roundToDigits 11 = m.roundToDigits 11 := by
  obtain ⟨place, hDigits⟩ := exists_digitCount hRank
  have hNext : (10 : ℕ) ^ (place + 1) = 10 * 10 ^ place := pow_succ' 10 place
  have hPower : 0 < 10 ^ (place + 1) := Nat.pow_pos (by decide)
  have hReads := (nearest?_roundToDigits_iff 10 hDigits).mp h
  have hSame := roundHalfEven_of_readsBack hPower hReads
  obtain ⟨hLow, hHigh⟩ := digitCount_eq_add_eleven_iff.mp hDigits
  obtain ⟨hLower, hUpper, -⟩ := roundHalfEven_bounds m.decimalUnits hPower
  obtain ⟨hLower', hUpper', -⟩ := (roundHalfEven_eq_iff hPower).mp hSame
  rw [roundToDigits_of_digitCount 10 hDigits]
  generalize roundHalfEven m.decimalUnits (10 ^ (place + 1)) = k at *
  have hMin : 10 ^ 10 ≤ k := le_of_two_mul_le hPower (by omega)
  have hMinPower := Nat.mul_le_mul_right (10 ^ (place + 1)) hMin
  have hPos : 0 < m'.decimalUnits := by omega
  refine ⟨rank_ne_zero_of_decimalUnits_pos hPos, ?_⟩
  rcases Nat.lt_or_ge m'.decimalUnits (10 ^ 10 * 10 ^ (place + 1)) with hBelow | hFrom
  · obtain rfl : k = 10 ^ 10 := (le_of_two_mul_le hPower (by omega)).antisymm hMin
    rw [if_neg (by decide)]
    have hTen : 10 ^ 10 * 10 ^ (place + 1) = 10 ^ 11 * 10 ^ place := by rw [hNext]; ring
    rw [hTen] at hReads hBelow hLow hLower' hUpper
    have hNear := two_mul_ten_pow_le hReads hBelow hLow (by omega)
    exact roundToDigits_of_near hNear (by omega)
  · rcases Nat.lt_or_ge m'.decimalUnits (10 ^ 11 * 10 ^ (place + 1)) with hWithin | hBeyond
    · have hDigits' := digitCount_eq_add_eleven_iff.mpr ⟨hFrom, hWithin⟩
      rw [roundToDigits_of_digitCount 10 hDigits', hSame]
    · have hMax : k ≤ 10 ^ 11 := le_of_two_mul_le hPower (by omega)
      obtain rfl : k = 10 ^ 11 := hMax.antisymm (le_of_two_mul_le hPower (by omega))
      rw [if_pos rfl]
      exact roundToDigits_of_near (by omega) hUpper'

/-! ### The largest magnitudes -/

def largest : Magnitude := ⟨magnitudeCount - 1, by decide⟩

/-- The place of the twelfth digit of the largest magnitudes. -/
def topPlace : ℕ := 1371

theorem largest_bounds :
    2 * (179769313480 * 10 ^ topPlace) < largest.lowerBound ∧
      largest.upperBound < 2 * (17976931349 * 10 ^ (topPlace + 1)) ∧
      largest.decimalUnits < 10 ^ 11 * 10 ^ (topPlace + 1) := by
  decide +kernel

/-- Eleven digits of a value below `1.79769313485e308` are at most `1.7976931348e308`. -/
theorem roundHalfEven_mul_le {n place : ℕ} (hn : n < 179769313485 * 10 ^ topPlace)
    (hDigits : digitCount n = place + 11) :
    roundHalfEven n (10 ^ place) * 10 ^ place ≤ 179769313480 * 10 ^ topPlace := by
  have hPower : 0 < 10 ^ place := Nat.pow_pos (by decide)
  obtain ⟨hLow, hHigh⟩ := digitCount_eq_add_eleven_iff.mp hDigits
  obtain ⟨hLower, -, -⟩ := roundHalfEven_bounds n hPower
  have hTop : (10 : ℕ) ^ (topPlace + 1) = 10 * 10 ^ topPlace := pow_succ' 10 topPlace
  rcases Nat.lt_trichotomy place (topPlace + 1) with hLess | rfl | hMore
  · have : 10 ^ place ≤ 10 ^ topPlace := Nat.pow_le_pow_right (by decide) (by omega)
    omega
  · rw [hTop] at *
    have hBelow : roundHalfEven n (10 * 10 ^ topPlace) * (10 * 10 ^ topPlace) <
        17976931349 * (10 * 10 ^ topPlace) := by omega
    have hLe := Nat.lt_of_mul_lt_mul_right hBelow
    have := Nat.mul_le_mul_right (10 * 10 ^ topPlace) (Nat.le_of_lt_succ hLe)
    omega
  · have : 10 ^ (topPlace + 1) ≤ 10 ^ place := Nat.pow_le_pow_right (by decide) hMore.le
    have : 10 ^ (topPlace + 1 + 1) ≤ 10 ^ place := Nat.pow_le_pow_right (by decide) hMore
    rw [pow_succ' 10 (topPlace + 1)] at this
    omega

/-- A value below `1.79769313485e308` rounded to eleven digits reads as a magnitude. -/
theorem exists_nearest?_roundToDigits {m : Magnitude}
    (h : m.decimalUnits < 179769313485 * 10 ^ topPlace) :
    ∃ m', (m.roundToDigits 11).nearest? = some m' := by
  by_cases hRank : m.rank = 0
  · obtain rfl : m = zero := by
      obtain ⟨rank, hLt⟩ := m
      obtain rfl : rank = 0 := hRank
      rfl
    exact ⟨zero, by decide +kernel⟩
  · obtain ⟨place, hDigits⟩ := exists_digitCount hRank
    have hRounded := roundHalfEven_mul_le h hDigits
    have hZero : zero.readsBack 0 = true := by
      have hReads := readsBack_decimalUnits zero
      rwa [decimalUnits_eq, show zero.units = 0 by decide, Nat.zero_mul] at hReads
    obtain ⟨m', hReads, -⟩ := exists_readsBack hZero (Nat.zero_le _)
      ((Nat.mul_le_mul_left 2 hRounded).trans_lt largest_bounds.1)
    exact ⟨m', (nearest?_roundToDigits_iff 10 hDigits).mpr hReads⟩

/-- The least magnitude above `1.79769313485e308`. -/
def firstBeyond : Magnitude := ⟨0x7FEFFFFFFFFF0EF5, by decide⟩

theorem decimalUnits_firstBeyond :
    unitsOfRank (firstBeyond.rank - 1) * decimalUnitsPerUnit < 179769313485 * 10 ^ topPlace ∧
      179769313485 * 10 ^ topPlace < firstBeyond.decimalUnits := by
  decide +kernel

theorem upperBound_le_largest (m : Magnitude) : m.upperBound ≤ largest.upperBound := by
  have hRank : m.rank ≤ largest.rank := Nat.le_pred_of_lt m.rank_lt
  rw [upperBound_eq, upperBound_eq]
  exact Nat.mul_le_mul_right _ (Nat.add_le_add (unitsOfRank_strictMono.monotone hRank)
    (unitsOfRank_strictMono.monotone (Nat.succ_le_succ hRank)))

/-- No magnitude lies at `1.79769313485e308` itself. -/
theorem lt_decimalUnits {m : Magnitude} (h : 179769313485 * 10 ^ topPlace ≤ m.decimalUnits) :
    179769313485 * 10 ^ topPlace < m.decimalUnits := by
  obtain ⟨hBefore, hBeyond⟩ := decimalUnits_firstBeyond
  by_cases hRank : firstBeyond.rank ≤ m.rank
  · exact hBeyond.trans_le (decimalUnits_le_of_rank_le hRank)
  · have hUnits : m.units ≤ unitsOfRank (firstBeyond.rank - 1) :=
      unitsOfRank_strictMono.monotone (by omega)
    have := Nat.mul_le_mul_right decimalUnitsPerUnit hUnits
    rw [← decimalUnits_eq] at this
    omega

theorem digitCount_of_le {m : Magnitude} (h : 179769313485 * 10 ^ topPlace ≤ m.decimalUnits) :
    digitCount m.decimalUnits = topPlace + 1 + 11 := by
  have hLargest : m.decimalUnits ≤ largest.decimalUnits :=
    decimalUnits_le_of_rank_le (Nat.le_pred_of_lt m.rank_lt)
  have hSize := largest_bounds.2.2
  rw [digitCount_eq_add_eleven_iff]
  rw [pow_succ' 10 topPlace] at *
  omega

/-- A magnitude rounded to eleven digits reads as a magnitude only below `1.79769313485e308`. -/
theorem exists_nearest?_roundToDigits_iff {m : Magnitude} :
    (∃ m', (m.roundToDigits 11).nearest? = some m') ↔
      m.decimalUnits < 179769313485 * 10 ^ topPlace := by
  refine ⟨fun ⟨m', hNearest⟩ => ?_, exists_nearest?_roundToDigits⟩
  by_contra hNot
  have hBeyond := lt_decimalUnits (not_lt.mp hNot)
  have hPower : 0 < 10 ^ (topPlace + 1) := Nat.pow_pos (by decide)
  have hReads := (nearest?_roundToDigits_iff 10 (digitCount_of_le hBeyond.le)).mp hNearest
  have hUpper := (readsBack_iff_bounds.mp hReads).2.1
  have hLargest := upperBound_le_largest m'
  have hEnd := largest_bounds.2.1
  obtain ⟨-, hClose, -⟩ := roundHalfEven_bounds m.decimalUnits hPower
  generalize roundHalfEven m.decimalUnits (10 ^ (topPlace + 1)) = k at *
  have hDigits : k < 17976931349 := by
    by_contra hMore
    have := Nat.mul_le_mul_right (10 ^ (topPlace + 1)) (not_lt.mp hMore)
    omega
  have hSize := Nat.mul_le_mul_right (10 ^ (topPlace + 1)) (Nat.le_of_lt_succ hDigits)
  have hTop : (10 : ℕ) ^ (topPlace + 1) = 10 * 10 ^ topPlace := pow_succ' 10 topPlace
  omega
end Magnitude

end Calculator
