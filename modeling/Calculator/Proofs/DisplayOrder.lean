import Calculator.Proofs.RoundedValue

/-! The texts of numbers keep the order of the numbers. Numbers whose last digits stand at one place
are rounded to one grid, and that keeps their order; between numbers with different last places lies
a power of ten, which is on both grids. What the texts evaluate to is ordered like the rounded
values, with infinities at the ends. -/

namespace Calculator

namespace Binary64

variable {x y : Binary64} {negative negative' : Bool} {m m' : Magnitude}

/-! ### The order of numbers -/

/-- Numbers are ordered by their places; what is not a number is not in the order. -/
instance : LE Binary64 := ⟨fun x y => ∃ a ∈ x.place?, ∃ b ∈ y.place?, a ≤ b⟩

theorem le_iff_of_place? {a b : ℤ} (hx : x.place? = some a) (hy : y.place? = some b) :
    x ≤ y ↔ a ≤ b := by
  constructor
  · rintro ⟨a', ha, b', hb, hLe⟩
    rw [Option.mem_def, hx, Option.some.injEq] at ha
    rw [Option.mem_def, hy, Option.some.injEq] at hb
    rwa [ha, hb]
  · exact fun hLe => ⟨a, hx, b, hy, hLe⟩

theorem place?_finite (negative : Bool) (m : Magnitude) :
    (finite negative m).place? = some (if negative then -(m.rank : ℤ) else m.rank) := by
  cases negative <;> rfl

/-- Finite numbers are ordered like their exact values. -/
theorem finite_le_finite_iff :
    finite negative m ≤ finite negative' m' ↔
      signedUnits negative m ≤ signedUnits negative' m' := by
  have hUnits (m m' : Magnitude) : m.units ≤ m'.units ↔ m.rank ≤ m'.rank :=
    unitsOfRank_strictMono.le_iff_le
  have hZero (m : Magnitude) : m.units = 0 ↔ m.rank = 0 :=
    unitsOfRank_strictMono.injective.eq_iff' (by decide)
  have := hUnits m m'
  have := hUnits m' m
  have := hZero m
  have := hZero m'
  rw [le_iff_of_place? (place?_finite ..) (place?_finite ..), signedUnits, signedUnits]
  cases negative <;> cases negative' <;> simp only [Bool.false_eq_true, if_true, if_false] <;> omega

/-- The number of a rank has that place, up to the place of the infinities. -/
theorem place?_ofRank (negative : Bool) (rank : ℕ) :
    (ofRank negative rank).place? =
      some (if negative then -(min rank magnitudeCount : ℕ)
        else (min rank magnitudeCount : ℕ) : ℤ) := by
  unfold ofRank
  split
  · rename_i hFinite
    rw [place?_finite, Nat.min_eq_left hFinite.le]
  · rename_i hInfinite
    rw [Nat.min_eq_right (not_lt.mp hInfinite)]
    cases negative <;> rfl

end Binary64

namespace Display

open Magnitude

variable {m m' : Magnitude}

/-! ### The order of rounded values -/

theorem value_le_of_rank_le (h : m.rank ≤ m'.rank) : m.value ≤ m'.value :=
  div_le_div_of_nonneg_right (by exact_mod_cast unitsOfRank_strictMono.monotone h)
    unitsPerOne_pos.le

/-- The rounded value lies on the same side as the exact one of a power of ten that is a multiple of
the last digit's step. -/
theorem value_rounded_ten_zpow {p : ℤ} (hRank : m.rank ≠ 0) (hStep : lastExponent m ≤ p) :
    (m.value ≤ 10 ^ p → (rounded m).value ≤ 10 ^ p) ∧
      (10 ^ p ≤ m.value → 10 ^ p ≤ (rounded m).value) := by
  obtain ⟨k, hRounds, hValue⟩ := exists_roundsTo_rounded hRank
  obtain ⟨n, rfl⟩ := Int.le.dest hStep
  have hUnit : (0 : ℚ) < 10 ^ lastExponent m := by positivity
  have hPower : (10 : ℚ) ^ (lastExponent m + n) = (10 ^ n : ℕ) * 10 ^ lastExponent m := by
    rw [zpow_add₀ (by norm_num), zpow_natCast, mul_comm]
    push_cast
    rfl
  have hSelf : RoundsTo id ((10 ^ n : ℕ) : ℚ) (10 ^ n) := RoundsTo.self strictMono_id (10 ^ n)
  rw [hValue, Decimal.value, hPower]
  constructor
  · intro hLe
    have hBelow := hRounds.le_of_le strictMono_id hSelf ((div_le_iff₀ hUnit).mpr hLe)
    exact mul_le_mul_of_nonneg_right (by exact_mod_cast hBelow) hUnit.le
  · intro hLe
    have hAbove := hSelf.le_of_le strictMono_id hRounds ((le_div_iff₀ hUnit).mpr hLe)
    exact mul_le_mul_of_nonneg_right (by exact_mod_cast hAbove) hUnit.le

theorem ten_zpow_le_value_iff (place : ℕ) :
    10 ^ (place - 1074 : ℤ) ≤ m.value ↔ 10 ^ place ≤ m.decimalUnits := by
  have hUnit : (0 : ℚ) < 10 ^ (place - 1074 : ℤ) := by positivity
  have hPower : (0 : ℚ) < (10 ^ place : ℕ) := by positivity
  rw [← one_le_div hUnit, value_div, one_le_div hPower]
  exact Nat.cast_le

theorem decimalUnits_plainBelow : plainBelow.decimalUnits = 10 ^ beyondPlace := by
  decide +kernel

theorem value_of_plain (h : isScientific m = false) :
    10 ^ (-10 : ℤ) ≤ m.value ∧ m.value < 10 ^ (10 : ℤ) := by
  obtain ⟨hFrom, hBelow⟩ := isScientific_eq_false_iff.mp h
  refine ⟨(ten_zpow_le_value_iff lastPlace).mpr (ten_pow_le_of_plain hFrom), not_le.mp ?_⟩
  refine mt (ten_zpow_le_value_iff beyondPlace).mp (not_le.mpr ?_)
  rw [← decimalUnits_plainBelow, decimalUnits_eq, decimalUnits_eq]
  exact Nat.mul_lt_mul_of_pos_right (units_lt_units hBelow) decimalUnitsPerUnit_pos

theorem value_of_scientific (h : isScientific m = true) :
    m.value < 10 ^ (-10 : ℤ) ∨ 10 ^ (10 : ℤ) ≤ m.value := by
  refine (decimalUnits_of_scientific h).imp (fun hBefore => not_le.mp ?_)
    (ten_zpow_le_value_iff beyondPlace).mpr
  exact mt (ten_zpow_le_value_iff lastPlace).mp (not_le.mpr hBefore)

theorem lastExponent_of_plain (h : isScientific m = false) : lastExponent m = -10 :=
  if_pos (isScientific_eq_false_iff.mp h)

theorem lastExponent_of_scientific (h : isScientific m = true) :
    lastExponent m = Int.log 10 m.value - 10 := by
  refine if_neg ?_
  rw [← isScientific_eq_false_iff, h]
  decide

/-- Between magnitudes with different last places lies a power of ten that is a multiple of both
steps: the one of the upper magnitude's first digit, or the start of the plain range. -/
theorem exists_ten_zpow_between (hRank : m.rank ≠ 0) (hLe : m.rank ≤ m'.rank)
    (h : lastExponent m ≠ lastExponent m') :
    ∃ p : ℤ, lastExponent m ≤ p ∧ lastExponent m' ≤ p ∧ m.value ≤ 10 ^ p ∧ 10 ^ p ≤ m'.value := by
  have hPos : 0 < m.value := value_pos_iff.mpr hRank
  have hValue : m.value ≤ m'.value := value_le_of_rank_le hLe
  have hPos' : 0 < m'.value := hPos.trans_le hValue
  cases hUpper : isScientific m' with
  | false =>
    cases hLower : isScientific m with
    | false => exact absurd (by rw [lastExponent_of_plain hLower, lastExponent_of_plain hUpper]) h
    | true =>
      obtain ⟨hFrom, hBelow⟩ := value_of_plain hUpper
      have hBefore : m.value < 10 ^ (-10 : ℤ) :=
        (value_of_scientific hLower).resolve_right (by linarith)
      have hLog : Int.log 10 m.value < -10 :=
        (Int.lt_zpow_iff_log_lt (by decide) hPos).mp (by exact_mod_cast hBefore)
      rw [lastExponent_of_scientific hLower, lastExponent_of_plain hUpper]
      exact ⟨-10, by omega, le_rfl, hBefore.le, hFrom⟩
  | true =>
    have hFirst : (10 : ℚ) ^ Int.log 10 m'.value ≤ m'.value := by
      exact_mod_cast Int.zpow_log_le_self (by decide) hPos'
    rw [lastExponent_of_scientific hUpper] at h ⊢
    cases hLower : isScientific m with
    | false =>
      obtain ⟨hFrom, hBelow⟩ := value_of_plain hLower
      have hBeyond : 10 ^ (10 : ℤ) ≤ m'.value :=
        (value_of_scientific hUpper).resolve_left (by linarith)
      have hLog : 10 ≤ Int.log 10 m'.value :=
        (Int.zpow_le_iff_le_log (by decide) hPos').mp (by exact_mod_cast hBeyond)
      have hPower : (10 : ℚ) ^ (10 : ℤ) ≤ 10 ^ Int.log 10 m'.value :=
        zpow_le_zpow_right₀ (by norm_num) hLog
      rw [lastExponent_of_plain hLower]
      exact ⟨Int.log 10 m'.value, by omega, by omega, by linarith, hFirst⟩
    | true =>
      rw [lastExponent_of_scientific hLower] at h ⊢
      have hMono : Int.log 10 m.value ≤ Int.log 10 m'.value := Int.log_mono_right hPos hValue
      have hLess : m.value < ((10 : ℕ) : ℚ) ^ Int.log 10 m'.value :=
        (Int.lt_zpow_iff_log_lt (by decide) hPos).mpr (by omega)
      exact ⟨Int.log 10 m'.value, by omega, by omega, by exact_mod_cast hLess.le, hFirst⟩

theorem value_rounded_of_rank_eq_zero (h : m.rank = 0) : (rounded m).value = 0 := by
  obtain ⟨rank, _⟩ := m
  obtain rfl : rank = 0 := h
  have hRounded : rounded .zero = ⟨0, -1074⟩ := by decide +kernel
  show (rounded .zero).value = 0
  rw [hRounded, Decimal.value, Nat.cast_zero, zero_mul]

/-- Rounding keeps the order, also where it rounds to different places. -/
theorem value_rounded_le (h : m.rank ≤ m'.rank) : (rounded m).value ≤ (rounded m').value := by
  by_cases hRank : m.rank = 0
  · rw [value_rounded_of_rank_eq_zero hRank]
    exact Decimal.value_nonneg _
  have hRank' : m'.rank ≠ 0 := by omega
  by_cases hExponent : lastExponent m = lastExponent m'
  · obtain ⟨k, hRounds, hValue⟩ := exists_roundsTo_rounded hRank
    obtain ⟨k', hRounds', hValue'⟩ := exists_roundsTo_rounded hRank'
    have hScaled : m.value / 10 ^ lastExponent m ≤ m'.value / 10 ^ lastExponent m' := by
      rw [hExponent]
      exact div_le_div_of_nonneg_right (value_le_of_rank_le h) (by positivity)
    have hLe := hRounds.le_of_le strictMono_id hRounds' hScaled
    rw [hValue, hValue', hExponent]
    exact mul_le_mul_of_nonneg_right (by exact_mod_cast hLe) (by positivity)
  · obtain ⟨p, hStep, hStep', hLower, hUpper⟩ := exists_ten_zpow_between hRank h hExponent
    exact ((value_rounded_ten_zpow hRank hStep).1 hLower).trans
      ((value_rounded_ten_zpow hRank' hStep').2 hUpper)

/-! ### The order of texts -/

section

variable {rank rank' : ℕ}

theorem rank_le_of_rounded (hRounds : RoundsTo unitsOfRank (rounded m).units rank)
    (hRounds' : RoundsTo unitsOfRank (rounded m').units rank') (h : m.rank ≤ m'.rank) :
    rank ≤ rank' :=
  hRounds.le_of_le unitsOfRank_strictMono hRounds'
    (mul_le_mul_of_nonneg_right (value_rounded_le h) unitsPerOne_pos.le)

theorem units_rounded_of_rank_eq_zero (h : m.rank = 0) :
    (rounded m).units = (unitsOfRank 0 : ℕ) := by
  rw [Decimal.units, value_rounded_of_rank_eq_zero h, zero_mul,
    show unitsOfRank 0 = 0 by decide, Nat.cast_zero]

theorem rank_eq_zero_of_rounded (hRounds : RoundsTo unitsOfRank (rounded m).units rank)
    (h : m.rank = 0) : rank = 0 := by
  rw [units_rounded_of_rank_eq_zero h] at hRounds
  exact hRounds.unique unitsOfRank_strictMono (.self unitsOfRank_strictMono 0)

end

/-- The text of a finite number evaluates to a number in the place of the rank to which the rounded
value rounds. -/
theorem exists_evalText_place (angle : Angle) (negative : Bool) (m : Magnitude) :
    ∃ v rank, evalText angle (text (.finite negative m)) = .ok v ∧
      v.place? = (Binary64.ofRank negative rank).place? ∧
      RoundsTo unitsOfRank (rounded m).units rank := by
  by_cases hRank : m.rank = 0
  · -- a zero is written without its sign
    have hText : text (.finite negative m) = ['0'] := if_pos hRank
    have hPlace : Binary64.zero.place? = (Binary64.ofRank negative 0).place? := by
      cases negative <;> rfl
    rw [hText, units_rounded_of_rank_eq_zero hRank]
    exact ⟨.zero, 0, evalText_numeral angle isNumeral_zero, hPlace,
      .self unitsOfRank_strictMono 0⟩
  · obtain ⟨rank, hRounds, -⟩ := (rounded m).exists_rank
    refine ⟨_, rank, ?_, rfl, hRounds⟩
    rw [text_finite negative hRank,
      evalText_signed_decimal angle negative (isNumeral_rounded hRank),
      Decimal.toBinary64_eq_ofRank negative hRounds]

/-- The texts of two finite numbers evaluate to numbers in the same order. These may be equal where
the finite ones are not, and they may be infinities, but they always are numbers. -/
theorem evalText_text_le (angle : Angle) {negative negative' : Bool} {m m' : Magnitude}
    (h : Binary64.finite negative m ≤ .finite negative' m') :
    ∃ v w, evalText angle (text (.finite negative m)) = .ok v ∧
      evalText angle (text (.finite negative' m')) = .ok w ∧ v ≤ w := by
  obtain ⟨v, rank, hEval, hPlace, hRounds⟩ := exists_evalText_place angle negative m
  obtain ⟨w, rank', hEval', hPlace', hRounds'⟩ := exists_evalText_place angle negative' m'
  refine ⟨v, w, hEval, hEval', ?_⟩
  rw [Binary64.le_iff_of_place? (Binary64.place?_finite ..) (Binary64.place?_finite ..)] at h
  rw [Binary64.place?_ofRank] at hPlace hPlace'
  rw [Binary64.le_iff_of_place? hPlace hPlace']
  have hLe := rank_le_of_rounded hRounds hRounds'
  have hGe := rank_le_of_rounded hRounds' hRounds
  have hZero := rank_eq_zero_of_rounded hRounds
  have hZero' := rank_eq_zero_of_rounded hRounds'
  cases negative <;> cases negative' <;>
    simp only [Bool.false_eq_true, if_true, if_false] at h ⊢ <;> omega

/-- The number before `1e10`, which is written plainly, and the largest number, whose text evaluates
to an infinity. -/
theorem evalText_text_le_of_infinite :
    let m : Magnitude := ⟨plainBelow.rank - 1, by decide⟩
    Binary64.finite false m ≤ .finite false largest ∧
      ∃ v w, evalText .degrees (text (.finite false m)) = .ok v ∧
        evalText .degrees (text (.finite false largest)) = .ok w ∧ w = .infinite false ∧ v ≤ w := by
  intro m
  have hLe : Binary64.finite false m ≤ .finite false largest :=
    (Binary64.le_iff_of_place? rfl rfl).mpr (by decide)
  have hInfinite :
      (evalText .degrees (text (.finite false largest))).toOption = some (.infinite false) := by
    decide +kernel
  obtain ⟨v, w, hEval, hEval', hOrder⟩ := evalText_text_le .degrees hLe
  rw [hEval'] at hInfinite
  exact ⟨hLe, v, w, hEval, hEval', Option.some.inj hInfinite, hOrder⟩

end Display

end Calculator
