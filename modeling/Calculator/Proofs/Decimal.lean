import Calculator.Numeric.Shortest
import Calculator.Proofs.Rounding
import Mathlib.Algebra.Order.Field.Power

/-! The value of a decimal, and the magnitude that it reads as: the one of the rank to which the value
rounds. Decimals of one value read as one magnitude, and larger decimals as larger ones. -/

namespace Calculator

theorem RoundsTo.self {grid : ℕ → ℕ} (hGrid : StrictMono grid) (r : ℕ) :
    RoundsTo grid (grid r) r := by
  have hBelow : (grid (r - 1) : ℚ) ≤ grid r := by
    exact_mod_cast hGrid.monotone (Nat.sub_le r 1)
  have hAbove : (grid r : ℚ) < grid (r + 1) := by exact_mod_cast hGrid (Nat.lt_succ_self r)
  refine ⟨by linarith, by linarith, fun hOdd => ?_, fun _ => by linarith⟩
  have : (grid (r - 1) : ℚ) < grid r := by exact_mod_cast hGrid (show r - 1 < r by omega)
  linarith

theorem cast_unitsPerOne : (unitsPerOne : ℚ) = 2 ^ 1074 := by
  unfold unitsPerOne
  generalize 1074 = n
  push_cast
  rfl

theorem unitsPerOne_pos : (0 : ℚ) < unitsPerOne := by
  rw [cast_unitsPerOne]
  exact pow_pos (by norm_num) 1074

theorem unitsOfRank_row_start (row : ℕ) :
    (unitsOfRank ((row + 1) * 2 ^ 52) : ℚ) = 2 ^ 52 * 2 ^ row := by
  rw [show (row + 1) * 2 ^ 52 = row * 2 ^ 52 + 2 ^ 52 by ring,
    unitsOfRank_row (by decide) (.inr le_rfl)]
  push_cast
  rfl

/-- The ranks beyond the magnitudes stand for values from `2 ^ 1024` on. -/
theorem unitsOfRank_magnitudeCount :
    (unitsOfRank magnitudeCount : ℚ) = 2 ^ 1024 * unitsPerOne := by
  rw [cast_unitsPerOne]
  exact (unitsOfRank_row_start 2046).trans
    ((pow_add (2 : ℚ) 52 2046).symm.trans (pow_add 2 1024 1074))

namespace Magnitude

def ofRank? (rank : ℕ) : Option Magnitude :=
  if h : rank < magnitudeCount then some ⟨rank, h⟩ else none

theorem nearest?_eq_ofRank? (n d : ℕ) : nearest? n d = ofRank? (nearestRank n d) := rfl

theorem ofRank?_eq_some_iff {rank : ℕ} {m : Magnitude} : ofRank? rank = some m ↔ m.rank = rank := by
  unfold ofRank?
  split
  · rw [Option.some.injEq]
    constructor
    · rintro rfl
      rfl
    · rintro rfl
      rfl
  · rename_i h
    simp only [reduceCtorEq, false_iff]
    rintro rfl
    exact h m.rank_lt

theorem ofRank?_eq_none_iff {rank : ℕ} : ofRank? rank = none ↔ magnitudeCount ≤ rank := by
  unfold ofRank?
  split
  · simp only [reduceCtorEq, false_iff]
    omega
  · simp only [true_iff]
    omega

end Magnitude

theorem two_pow_le_ten_pow {a b : ℕ} (h : a ≤ 3 * b) : (2 : ℚ) ^ a ≤ 10 ^ b := by
  calc (2 : ℚ) ^ a ≤ 2 ^ (3 * b) := pow_le_pow_right₀ (by norm_num) h
    _ = 8 ^ b := by rw [pow_mul]; norm_num
    _ ≤ 10 ^ b := pow_le_pow_left₀ (by norm_num) (by norm_num) b

namespace Decimal

/-- The number that a decimal stands for. -/
def value (d : Decimal) : ℚ := d.coefficient * 10 ^ d.exponent

/-- The value in units of `2 ^ -1074`. -/
def units (d : Decimal) : ℚ := d.value * unitsPerOne

theorem value_nonneg (d : Decimal) : 0 ≤ d.value := by
  unfold value
  positivity

theorem units_nonneg (d : Decimal) : 0 ≤ d.units := mul_nonneg d.value_nonneg unitsPerOne_pos.le

theorem magnitudeCount_le_of_le_exponent {d : Decimal} {rank : ℕ}
    (hRank : RoundsTo unitsOfRank d.units rank) (hNonzero : d.coefficient ≠ 0)
    (hExponent : 400 ≤ d.exponent) : magnitudeCount ≤ rank := by
  refine (RoundsTo.self unitsOfRank_strictMono magnitudeCount).le_of_le unitsOfRank_strictMono
    hRank ?_
  have hOne : (1 : ℚ) ≤ d.coefficient := by exact_mod_cast Nat.one_le_iff_ne_zero.mpr hNonzero
  have hPower : (10 : ℚ) ^ (400 : ℕ) ≤ 10 ^ d.exponent := by
    rw [← zpow_natCast]
    exact zpow_le_zpow_right₀ (by norm_num) hExponent
  have hValue : (2 : ℚ) ^ 1024 ≤ d.value := by
    calc (2 : ℚ) ^ 1024 ≤ 10 ^ 400 := two_pow_le_ten_pow (by decide)
      _ ≤ 10 ^ d.exponent := hPower
      _ ≤ d.coefficient * 10 ^ d.exponent := le_mul_of_one_le_left (by positivity) hOne
  rw [unitsOfRank_magnitudeCount]
  exact mul_le_mul_of_nonneg_right hValue unitsPerOne_pos.le

theorem roundsTo_zero_of_small {d : Decimal}
    (hSmall : d.exponent + (d.coefficient.log2 + 1) < -400) : RoundsTo unitsOfRank d.units 0 := by
  have hCoefficient : (d.coefficient : ℚ) ≤ 10 ^ (d.coefficient.log2 + 1) := by
    have hTwo : d.coefficient < 2 ^ (d.coefficient.log2 + 1) := Nat.lt_log2_self
    have hLe : (2 : ℕ) ^ (d.coefficient.log2 + 1) ≤ 10 ^ (d.coefficient.log2 + 1) :=
      Nat.pow_le_pow_left (by decide) _
    exact_mod_cast (hTwo.le.trans hLe)
  have hValue : d.value ≤ 10 ^ (d.exponent + (d.coefficient.log2 + 1)) := by
    calc d.value ≤ 10 ^ (d.coefficient.log2 + 1) * 10 ^ d.exponent :=
          mul_le_mul_of_nonneg_right hCoefficient (by positivity)
      _ = 10 ^ (d.exponent + (d.coefficient.log2 + 1)) := by
          rw [← zpow_natCast, ← zpow_add₀ (by norm_num), add_comm]
          push_cast
          rfl
  have hTen : (10 : ℚ) ^ (d.exponent + (d.coefficient.log2 + 1)) * 10 ^ 400 ≤ 1 := by
    rw [← zpow_natCast, ← zpow_add₀ (by norm_num)]
    exact zpow_le_one_of_nonpos₀ (by norm_num) (by omega)
  have hTwo : 2 * (unitsPerOne : ℚ) ≤ 10 ^ 400 := by
    rw [cast_unitsPerOne, ← pow_succ']
    exact two_pow_le_ten_pow (by decide)
  have hUnits : 2 * d.units ≤ 1 := by
    calc 2 * d.units = d.value * (2 * unitsPerOne) := by rw [units]; ring
      _ ≤ 10 ^ (d.exponent + (d.coefficient.log2 + 1)) * 10 ^ 400 :=
          mul_le_mul hValue hTwo (by linarith [unitsPerOne_pos]) (by positivity)
      _ ≤ 1 := hTen
  have hZero : (unitsOfRank 0 : ℚ) = 0 := by rw [show unitsOfRank 0 = 0 by decide, Nat.cast_zero]
  have hOne : (unitsOfRank (0 + 1) : ℚ) = 1 := by
    rw [show unitsOfRank (0 + 1) = 1 by decide, Nat.cast_one]
  refine ⟨?_, ?_, fun h => absurd h (by decide), fun h => absurd h (by decide)⟩
  · rw [show 0 - 1 = 0 from rfl, hZero]
    linarith [d.units_nonneg]
  · rw [hZero, hOne]
    linarith

theorem exists_roundsTo {q : ℚ} (hq : 0 ≤ q) : ∃ rank, RoundsTo unitsOfRank q rank := by
  refine ⟨nearestRank q.num.toNat q.den, ?_⟩
  have hNum : ((q.num.toNat : ℕ) : ℚ) = q.num := by
    exact_mod_cast Int.toNat_of_nonneg (Rat.num_nonneg.mpr hq)
  have := roundsTo_nearestRank q.num.toNat q.den_pos
  rwa [hNum, Rat.num_div_den] at this

/-- A decimal reads as the magnitude of the rank to which its value rounds. -/
theorem exists_rank (d : Decimal) :
    ∃ rank, RoundsTo unitsOfRank d.units rank ∧ d.nearest? = Magnitude.ofRank? rank := by
  unfold nearest?
  by_cases hZero : d.coefficient = 0
  · rw [if_pos hZero]
    refine ⟨0, ?_, rfl⟩
    have hUnits : d.units = (unitsOfRank 0 : ℕ) := by
      rw [units, value, hZero, show unitsOfRank 0 = 0 by decide, Nat.cast_zero, zero_mul, zero_mul]
    rw [hUnits]
    exact .self unitsOfRank_strictMono 0
  rw [if_neg hZero]
  by_cases hHuge : 400 ≤ d.exponent
  · rw [if_pos hHuge]
    obtain ⟨rank, hRank⟩ := exists_roundsTo d.units_nonneg
    exact ⟨rank, hRank, (Magnitude.ofRank?_eq_none_iff.mpr
      (magnitudeCount_le_of_le_exponent hRank hZero hHuge)).symm⟩
  rw [if_neg hHuge]
  by_cases hTiny : d.exponent + (d.coefficient.log2 + 1) < -400
  · rw [if_pos hTiny]
    exact ⟨0, roundsTo_zero_of_small hTiny, rfl⟩
  rw [if_neg hTiny]
  split
  · rename_i e hExponent
    refine ⟨_, ?_, Magnitude.nearest?_eq_ofRank? _ _⟩
    have hUnits : d.units = (d.coefficient * 10 ^ e * unitsPerOne : ℕ) / (1 : ℕ) := by
      rw [units, value, hExponent, Int.ofNat_eq_natCast, zpow_natCast]
      push_cast
      ring
    rw [hUnits]
    exact roundsTo_nearestRank _ Nat.one_pos
  · rename_i e hExponent
    refine ⟨_, ?_, Magnitude.nearest?_eq_ofRank? _ _⟩
    have hUnits : d.units = (d.coefficient * unitsPerOne : ℕ) / (10 ^ (e + 1) : ℕ) := by
      rw [units, value, hExponent, zpow_negSucc]
      generalize unitsPerOne = u
      push_cast
      field_simp
    rw [hUnits]
    exact roundsTo_nearestRank _ (Nat.pow_pos (by decide))

/-- A decimal reads as a magnitude exactly when its value rounds to the magnitude's rank. -/
theorem nearest?_eq_some_iff {d : Decimal} {m : Magnitude} :
    d.nearest? = some m ↔ RoundsTo unitsOfRank d.units m.rank := by
  obtain ⟨rank, hRank, hNearest⟩ := d.exists_rank
  rw [hNearest, Magnitude.ofRank?_eq_some_iff]
  constructor
  · rintro rfl
    exact hRank
  · exact fun h => h.unique unitsOfRank_strictMono hRank

theorem nearest?_congr {d d' : Decimal} (h : d.value = d'.value) : d.nearest? = d'.nearest? := by
  have hUnits : d.units = d'.units := by rw [units, units, h]
  obtain ⟨rank, hRank, hNearest⟩ := d.exists_rank
  obtain ⟨rank', hRank', hNearest'⟩ := d'.exists_rank
  rw [hUnits] at hRank
  rw [hNearest, hNearest', hRank.unique unitsOfRank_strictMono hRank']

theorem toBinary64_congr (negative : Bool) {d d' : Decimal} (h : d.value = d'.value) :
    d.toBinary64 negative = d'.toBinary64 negative := by
  rw [toBinary64, toBinary64, nearest?_congr h]

theorem toBinary64_of_nearest? (negative : Bool) {d : Decimal} {m : Magnitude}
    (h : d.nearest? = some m) : d.toBinary64 negative = .finite negative m := by
  rw [toBinary64, h]

/-- Of two decimals that read as magnitudes, the larger one reads as the larger magnitude. -/
theorem rank_le_of_value_le {d d' : Decimal} {m m' : Magnitude} (h : d.nearest? = some m)
    (h' : d'.nearest? = some m') (hLe : d.value ≤ d'.value) : m.rank ≤ m'.rank :=
  (nearest?_eq_some_iff.mp h).le_of_le unitsOfRank_strictMono (nearest?_eq_some_iff.mp h')
    (mul_le_mul_of_nonneg_right hLe unitsPerOne_pos.le)

end Decimal

end Calculator
