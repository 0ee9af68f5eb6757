import Calculator.Numeric.Rounding
import Mathlib.Algebra.Order.Field.Basic
import Mathlib.Data.Nat.Cast.Order.Field
import Mathlib.Data.Rat.Cast.Order
import Mathlib.Order.Monotone.Basic
import Mathlib.Tactic.FieldSimp
import Mathlib.Tactic.Linarith
import Mathlib.Tactic.NormNum
import Mathlib.Tactic.Positivity
import Mathlib.Tactic.Ring

/-! Rounding to nearest, halves to even, on a grid of increasing values: to which index a rational
number rounds, that it is only one, and that rounding keeps the order. Rounding to integers and
rounding to ranks are the two grids of the library. -/

namespace Calculator

/-- `q` rounds to the value of index `r` on the grid: it lies between the midpoints to the two
neighbours, and on a midpoint only if the index is even. -/
structure RoundsTo (grid : ℕ → ℕ) (q : ℚ) (r : ℕ) : Prop where
  lower : (grid (r - 1) + grid r : ℚ) ≤ 2 * q
  upper : 2 * q ≤ grid r + grid (r + 1)
  lower_odd : r % 2 = 1 → (grid (r - 1) + grid r : ℚ) < 2 * q
  upper_odd : r % 2 = 1 → 2 * q < grid r + grid (r + 1)

namespace RoundsTo

variable {grid : ℕ → ℕ} {q q' : ℚ} {r r' : ℕ}

theorem le_of_le (hGrid : StrictMono grid) (h : RoundsTo grid q r) (h' : RoundsTo grid q' r')
    (hLe : q ≤ q') : r ≤ r' := by
  by_contra hLt
  rw [not_le] at hLt
  have hLower : (grid r' : ℚ) ≤ grid (r - 1) := by
    exact_mod_cast hGrid.monotone (show r' ≤ r - 1 by omega)
  have hUpper : (grid (r' + 1) : ℚ) ≤ grid r := by
    exact_mod_cast hGrid.monotone (show r' + 1 ≤ r by omega)
  have hFirst := h.lower
  have hSecond := h'.upper
  rcases Nat.lt_or_ge (r' + 1) r with hApart | hNext
  · have : (grid (r' + 1) : ℚ) < grid r := by exact_mod_cast hGrid hApart
    linarith
  · -- neighbours share a midpoint, and only one of them has an even index
    rcases Nat.mod_two_eq_zero_or_one r with hEven | hOdd
    · have := h'.upper_odd (by omega)
      linarith
    · have := h.lower_odd hOdd
      linarith

theorem unique (hGrid : StrictMono grid) (h : RoundsTo grid q r) (h' : RoundsTo grid q r') :
    r = r' :=
  le_antisymm (h.le_of_le hGrid h' le_rfl) (h'.le_of_le hGrid h le_rfl)

end RoundsTo

/-! ### Integers -/

theorem cast_pred_add_cast (k : ℕ) (hk : k ≠ 0) : ((k - 1 : ℕ) : ℚ) + k = 2 * k - 1 := by
  rw [Nat.cast_sub (by omega)]
  push_cast
  ring

/-- On the grid of the integers the midpoints lie half a unit away. -/
theorem roundsTo_id_iff {q : ℚ} {k : ℕ} (hq : 0 ≤ q) :
    RoundsTo id q k ↔ 2 * (k : ℚ) ≤ 2 * q + 1 ∧ 2 * q ≤ 2 * k + 1 ∧
      (k % 2 = 1 → 2 * (k : ℚ) < 2 * q + 1 ∧ 2 * q < 2 * k + 1) := by
  have hNext : (id k + id (k + 1) : ℚ) = 2 * k + 1 := by
    simp only [id_eq]
    push_cast
    ring
  by_cases hk : k = 0
  · subst hk
    constructor
    · intro h
      have := h.upper
      rw [hNext] at this
      exact ⟨by push_cast; linarith, this, fun h => absurd h (by decide)⟩
    · rintro ⟨-, hUpper, -⟩
      exact ⟨by simpa using hq, by rwa [hNext], fun h => absurd h (by decide),
        fun h => absurd h (by decide)⟩
  · have hPred : (id (k - 1) + id k : ℚ) = 2 * k - 1 := cast_pred_add_cast k hk
    constructor
    · intro h
      have hLower := h.lower
      have hUpper := h.upper
      have hLowerOdd := h.lower_odd
      have hUpperOdd := h.upper_odd
      rw [hPred] at hLower hLowerOdd
      rw [hNext] at hUpper hUpperOdd
      exact ⟨by linarith, hUpper, fun hOdd => ⟨by linarith [hLowerOdd hOdd], hUpperOdd hOdd⟩⟩
    · rintro ⟨hLower, hUpper, hOdd⟩
      refine ⟨?_, by rwa [hNext], fun h => ?_, fun h => ?_⟩
      · rw [hPred]
        linarith
      · rw [hPred]
        linarith [(hOdd h).1]
      · rw [hNext]
        exact (hOdd h).2

/-- The rounded quotient lies within half a unit, with an odd one strictly inside. -/
theorem roundHalfEven_bounds (n : ℕ) {d : ℕ} (hd : 0 < d) :
    2 * (roundHalfEven n d * d) ≤ 2 * n + d ∧ 2 * n ≤ 2 * (roundHalfEven n d * d) + d ∧
      (roundHalfEven n d % 2 = 1 → 2 * (roundHalfEven n d * d) < 2 * n + d ∧
        2 * n < 2 * (roundHalfEven n d * d) + d) := by
  have hDivision := Nat.div_add_mod' n d
  have hRemainder := Nat.mod_lt n hd
  have hSucc : (n / d + 1) * d = n / d * d + d := Nat.succ_mul _ _
  unfold roundHalfEven
  dsimp only
  split
  · omega
  · split
    · rw [hSucc]
      omega
    · rcases Nat.mod_two_eq_zero_or_one (n / d) with hEven | hOdd
      · rw [hEven, Nat.add_zero]
        omega
      · rw [hOdd, hSucc]
        omega

theorem roundsTo_roundHalfEven (n : ℕ) {d : ℕ} (hd : 0 < d) :
    RoundsTo id (n / d) (roundHalfEven n d) := by
  have hdq : (0 : ℚ) < d := by exact_mod_cast hd
  obtain ⟨hLower, hUpper, hOdd⟩ := roundHalfEven_bounds n hd
  generalize roundHalfEven n d = k at *
  have hq : 2 * ((n : ℚ) / d) * d = 2 * n := by field_simp
  rw [roundsTo_id_iff (by positivity)]
  refine ⟨?_, ?_, fun h => ⟨?_, ?_⟩⟩
  · have : 2 * ((k : ℚ) * d) ≤ 2 * n + d := by exact_mod_cast hLower
    nlinarith
  · have : 2 * (n : ℚ) ≤ 2 * (k * d) + d := by exact_mod_cast hUpper
    nlinarith
  · have : 2 * ((k : ℚ) * d) < 2 * n + d := by exact_mod_cast (hOdd h).1
    nlinarith
  · have : 2 * (n : ℚ) < 2 * (k * d) + d := by exact_mod_cast (hOdd h).2
    nlinarith

theorem roundHalfEven_mul_mul (n d : ℕ) {k : ℕ} (hk : 0 < k) :
    roundHalfEven (n * k) (d * k) = roundHalfEven n d := by
  unfold roundHalfEven
  dsimp only
  rw [Nat.mul_div_mul_right _ _ hk, Nat.mul_mod_mul_right, ← Nat.mul_assoc]
  simp only [Nat.mul_lt_mul_right hk]

/-! ### Ranks -/

/-- Every rank is a place `k` in a row, and the places of all rows but the first start at
`2 ^ 52`. -/
theorem exists_row (rank : ℕ) :
    ∃ row k, rank = row * 2 ^ 52 + k ∧ k < 2 ^ 53 ∧ (row = 0 ∨ 2 ^ 52 ≤ k) := by
  by_cases h : rank < 2 ^ 52
  · exact ⟨0, rank, by omega, by omega, .inl rfl⟩
  · exact ⟨rank / 2 ^ 52 - 1, 2 ^ 52 + rank % 2 ^ 52, by omega, by omega, .inr (by omega)⟩

/-- The value at a place in a row; the row also reaches the first place of the next one. -/
theorem unitsOfRank_row {row k : ℕ} (hk : k ≤ 2 ^ 53) (hRow : row = 0 ∨ 2 ^ 52 ≤ k) :
    unitsOfRank (row * 2 ^ 52 + k) = k * 2 ^ row := by
  unfold unitsOfRank
  by_cases hSmall : row * 2 ^ 52 + k < 2 ^ 52
  · have hZero : row = 0 := by omega
    rw [if_pos hSmall, hZero]
    simp
  · rw [if_neg hSmall]
    rcases Nat.lt_or_ge k (2 ^ 53) with hLt | hGe
    · by_cases hFirst : k < 2 ^ 52
      · omega
      · have hQuotient : (row * 2 ^ 52 + k) / 2 ^ 52 - 1 = row := by omega
        have hRest : 2 ^ 52 + (row * 2 ^ 52 + k) % 2 ^ 52 = k := by omega
        rw [hQuotient, hRest]
    · have hEnd : k = 2 ^ 53 := by omega
      have hQuotient : (row * 2 ^ 52 + k) / 2 ^ 52 - 1 = row + 1 := by omega
      have hRest : (row * 2 ^ 52 + k) % 2 ^ 52 = 0 := by omega
      rw [hQuotient, hRest, hEnd, pow_succ 2 row]
      ring

theorem unitsOfRank_strictMono : StrictMono unitsOfRank := by
  refine strictMono_nat_of_lt_succ fun rank => ?_
  obtain ⟨row, k, rfl, hk, hRow⟩ := exists_row rank
  rw [Nat.add_assoc, unitsOfRank_row (by omega) hRow, unitsOfRank_row (by omega) (by omega)]
  exact Nat.mul_lt_mul_of_pos_right (Nat.lt_succ_self k) (by positivity)

/-- Between neighbours lies one unit, or at most one part in `2 ^ 52` of the value. -/
theorem unitsOfRank_succ_le (rank : ℕ) :
    unitsOfRank (rank + 1) = unitsOfRank rank + 1 ∨
      2 ^ 52 * unitsOfRank (rank + 1) ≤ (2 ^ 52 + 1) * unitsOfRank rank := by
  obtain ⟨row, k, rfl, hk, hRow⟩ := exists_row rank
  rw [Nat.add_assoc, unitsOfRank_row (by omega) hRow, unitsOfRank_row (by omega) (by omega)]
  rcases hRow with rfl | hPlace
  · left
    ring
  · right
    have : 2 ^ 52 * (k + 1) ≤ (2 ^ 52 + 1) * k := by omega
    calc 2 ^ 52 * ((k + 1) * 2 ^ row) = 2 ^ 52 * (k + 1) * 2 ^ row := by ring
      _ ≤ (2 ^ 52 + 1) * k * 2 ^ row := Nat.mul_le_mul_right _ this
      _ = (2 ^ 52 + 1) * (k * 2 ^ row) := by ring

/-- The row of `nearestRank` is the one that the value lies in. -/
theorem quotient_row_bounds (n : ℕ) {d row : ℕ} (hd : 0 < d) (hRow : row = (n / d).log2 - 52) :
    (n / d : ℚ) < 2 ^ 53 * 2 ^ row ∧ (row = 0 ∨ (2 : ℚ) ^ 52 * 2 ^ row ≤ n / d) := by
  have hdq : (0 : ℚ) < d := by exact_mod_cast hd
  constructor
  · have hLog : n / d < 2 ^ ((n / d).log2 + 1) := Nat.lt_log2_self
    have hPower : 2 ^ ((n / d).log2 + 1) ≤ 2 ^ (53 + row) := Nat.pow_le_pow_right (by decide) (by omega)
    have hBound : n < 2 ^ (53 + row) * d :=
      (Nat.div_lt_iff_lt_mul hd).mp (Nat.lt_of_lt_of_le hLog hPower)
    rw [div_lt_iff₀ hdq, ← pow_add]
    exact_mod_cast hBound
  · rcases Nat.eq_zero_or_pos row with hZero | hPos
    · exact .inl hZero
    · right
      have hne : n / d ≠ 0 := by
        intro h0
        rw [h0, Nat.log2_zero, Nat.zero_sub] at hRow
        omega
      have hLog : 2 ^ (52 + row) ≤ n / d := by
        rw [show 52 + row = (n / d).log2 by omega]
        exact Nat.log2_self_le hne
      have hBound : 2 ^ (52 + row) * d ≤ n := (Nat.le_div_iff_mul_le hd).mp hLog
      rw [le_div_iff₀ hdq, ← pow_add]
      exact_mod_cast hBound

section Row

variable {x : ℚ} {row k : ℕ}

/-- A value in a row rounds to one of its places, or to the first one of the next row. -/
theorem place_bounds (h : RoundsTo id x k) (hx : 0 ≤ x) (hHigh : x < 2 ^ 53)
    (hLow : row = 0 ∨ 2 ^ 52 ≤ x) : k ≤ 2 ^ 53 ∧ (row = 0 ∨ 2 ^ 52 ≤ k) := by
  obtain ⟨hLower, hUpper, -⟩ := (roundsTo_id_iff hx).mp h
  constructor
  · have : (2 * k : ℚ) < 2 ^ 54 + 1 := by linarith
    have : 2 * k < 2 ^ 54 + 1 := by exact_mod_cast this
    omega
  · refine hLow.imp_right fun hLow => ?_
    have : (2 ^ 53 : ℚ) ≤ 2 * k + 1 := by linarith
    have : 2 ^ 53 ≤ 2 * k + 1 := by exact_mod_cast this
    omega

/-- The midpoint below a place lies half a step away, or lower at the start of a row. -/
theorem lower_of_row (h : RoundsTo id x k) (hx : 0 ≤ x) (hHigh : x < 2 ^ 53)
    (hLow : row = 0 ∨ 2 ^ 52 ≤ x) :
    (unitsOfRank (row * 2 ^ 52 + k - 1) + k * 2 ^ row : ℚ) ≤ 2 * (x * 2 ^ row) ∧
      (k % 2 = 1 → (unitsOfRank (row * 2 ^ 52 + k - 1) + k * 2 ^ row : ℚ) < 2 * (x * 2 ^ row)) := by
  obtain ⟨hLe, hRow⟩ := place_bounds h hx hHigh hLow
  obtain ⟨hLower, -, hOdd⟩ := (roundsTo_id_iff hx).mp h
  have hUnit : (0 : ℚ) < 2 ^ row := by positivity
  by_cases hFirst : k = 2 ^ 52 ∧ row ≠ 0
  · have hPrevious : (unitsOfRank (row * 2 ^ 52 + k - 1) : ℚ) ≤ k * 2 ^ row := by
      have := unitsOfRank_strictMono.monotone (Nat.sub_le (row * 2 ^ 52 + k) 1)
      rw [unitsOfRank_row hLe hRow] at this
      exact_mod_cast this
    have hStart : (k : ℚ) * 2 ^ row ≤ x * 2 ^ row := by
      refine mul_le_mul_of_nonneg_right ?_ hUnit.le
      rw [hFirst.1]
      exact_mod_cast hLow.resolve_left hFirst.2
    exact ⟨by linarith, fun h => by omega⟩
  · rcases Nat.eq_zero_or_pos k with rfl | hPos
    · obtain rfl : row = 0 := by omega
      simpa [unitsOfRank] using hx
    · have hPrevious : (unitsOfRank (row * 2 ^ 52 + k - 1) : ℚ) = (k - 1) * 2 ^ row := by
        rw [Nat.add_sub_assoc hPos, unitsOfRank_row (by omega) (by omega)]
        push_cast [Nat.cast_sub hPos]
        ring
      rw [hPrevious, show ((k - 1) * 2 ^ row + k * 2 ^ row : ℚ) = (2 * k - 1) * 2 ^ row by ring,
        ← mul_assoc]
      exact ⟨mul_le_mul_of_nonneg_right (by linarith) hUnit.le,
        fun h => mul_lt_mul_of_pos_right (by linarith [(hOdd h).1]) hUnit⟩

/-- The midpoint above a place lies half a step away, or higher at the end of a row. -/
theorem upper_of_row (h : RoundsTo id x k) (hx : 0 ≤ x) (hHigh : x < 2 ^ 53)
    (hLow : row = 0 ∨ 2 ^ 52 ≤ x) :
    (2 * (x * 2 ^ row) : ℚ) ≤ k * 2 ^ row + unitsOfRank (row * 2 ^ 52 + k + 1) ∧
      (k % 2 = 1 → (2 * (x * 2 ^ row) : ℚ) < k * 2 ^ row + unitsOfRank (row * 2 ^ 52 + k + 1)) := by
  obtain ⟨hLe, hRow⟩ := place_bounds h hx hHigh hLow
  obtain ⟨-, hUpper, hOdd⟩ := (roundsTo_id_iff hx).mp h
  have hUnit : (0 : ℚ) < 2 ^ row := by positivity
  by_cases hLast : k = 2 ^ 53
  · have hNext : (k * 2 ^ row : ℚ) ≤ unitsOfRank (row * 2 ^ 52 + k + 1) := by
      have := unitsOfRank_strictMono.monotone (Nat.le_succ (row * 2 ^ 52 + k))
      rw [unitsOfRank_row hLe hRow] at this
      exact_mod_cast this
    have hEnd : x * 2 ^ row ≤ (k : ℚ) * 2 ^ row := by
      refine mul_le_mul_of_nonneg_right ?_ hUnit.le
      rw [hLast]
      exact_mod_cast hHigh.le
    exact ⟨by linarith, fun h => by omega⟩
  · have hNext : (unitsOfRank (row * 2 ^ 52 + k + 1) : ℚ) = (k + 1) * 2 ^ row := by
      rw [Nat.add_assoc, unitsOfRank_row (by omega) (by omega)]
      push_cast
      ring
    rw [hNext, show (k * 2 ^ row + (k + 1) * 2 ^ row : ℚ) = (2 * k + 1) * 2 ^ row by ring,
      ← mul_assoc]
    exact ⟨mul_le_mul_of_nonneg_right hUpper hUnit.le,
      fun h => mul_lt_mul_of_pos_right (hOdd h).2 hUnit⟩

/-- Rounding to a place in the right row is rounding to a rank. -/
theorem RoundsTo.of_row (h : RoundsTo id x k) (hx : 0 ≤ x) (hHigh : x < 2 ^ 53)
    (hLow : row = 0 ∨ 2 ^ 52 ≤ x) : RoundsTo unitsOfRank (x * 2 ^ row) (row * 2 ^ 52 + k) := by
  obtain ⟨hLe, hRow⟩ := place_bounds h hx hHigh hLow
  obtain ⟨hLower, hLowerOdd⟩ := lower_of_row h hx hHigh hLow
  obtain ⟨hUpper, hUpperOdd⟩ := upper_of_row h hx hHigh hLow
  have hHere : (unitsOfRank (row * 2 ^ 52 + k) : ℚ) = k * 2 ^ row := by
    exact_mod_cast unitsOfRank_row hLe hRow
  have hParity : (row * 2 ^ 52 + k) % 2 = k % 2 := by omega
  constructor
  · rwa [hHere]
  · rwa [hHere]
  · rwa [hHere, hParity]
  · rwa [hHere, hParity]

end Row

theorem roundsTo_nearestRank (n : ℕ) {d : ℕ} (hd : 0 < d) :
    RoundsTo unitsOfRank (n / d) (nearestRank n d) := by
  unfold nearestRank
  dsimp only
  obtain ⟨hHigh, hLow⟩ := quotient_row_bounds n hd rfl
  generalize (n / d).log2 - 52 = row at *
  have hUnit : (0 : ℚ) < 2 ^ row := by positivity
  have hPlace := roundsTo_roundHalfEven n (Nat.mul_pos hd (Nat.two_pow_pos row))
  have hSplit : (n / d : ℚ) = n / (d * 2 ^ row : ℕ) * 2 ^ row := by
    push_cast
    field_simp
  rw [hSplit] at hHigh hLow ⊢
  exact hPlace.of_row (by positivity) (lt_of_mul_lt_mul_right hHigh hUnit.le)
    (hLow.imp_right fun h => le_of_mul_le_mul_right h hUnit)

/-- The nearest rank depends on the value of the fraction alone. -/
theorem nearestRank_mul_mul (n : ℕ) {d k : ℕ} (hd : 0 < d) (hk : 0 < k) :
    nearestRank (n * k) (d * k) = nearestRank n d := by
  have hValue : ((n * k : ℕ) / (d * k : ℕ) : ℚ) = n / d := by
    push_cast
    exact mul_div_mul_right _ _ (by exact_mod_cast hk.ne')
  have hScaled := roundsTo_nearestRank (n * k) (Nat.mul_pos hd hk)
  rw [hValue] at hScaled
  exact hScaled.unique unitsOfRank_strictMono (roundsTo_nearestRank n hd)

theorem log2_mul_two_pow {n : ℕ} (hn : n ≠ 0) (rows : ℕ) :
    (n * 2 ^ rows).log2 = n.log2 + rows := by
  rw [Nat.log2_eq_iff (Nat.mul_ne_zero hn (Nat.two_pow_pos rows).ne'), Nat.add_right_comm,
    pow_add 2 _ rows, pow_add 2 _ rows]
  exact ⟨Nat.mul_le_mul_right _ (Nat.log2_self_le hn),
    Nat.mul_lt_mul_of_pos_right Nat.lt_log2_self (Nat.two_pow_pos rows)⟩

/-- From the second row on, doubling moves the nearest rank by one row. -/
theorem nearestRank_mul_two_pow {n : ℕ} (h : 2 ^ 52 ≤ n) (rows : ℕ) :
    nearestRank (n * 2 ^ rows) 1 = nearestRank n 1 + rows * 2 ^ 52 := by
  have hLog : 52 ≤ n.log2 := (Nat.le_log2 (by omega)).mpr h
  have hRow : n.log2 + rows - 52 = n.log2 - 52 + rows := by omega
  unfold nearestRank
  dsimp only
  rw [Nat.div_one, Nat.div_one, log2_mul_two_pow (by omega), hRow, pow_add, ← Nat.mul_assoc,
    Nat.one_mul, roundHalfEven_mul_mul n _ (Nat.two_pow_pos rows)]
  ring

end Calculator
