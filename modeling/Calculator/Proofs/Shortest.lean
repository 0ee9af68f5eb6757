import Calculator.Proofs.Decimal

/-! Decimal expansions of magnitudes. A number of decimal units reads back as a magnitude exactly
when the decimal it stands for has that nearest magnitude. The shortest decimal reads back, and no
decimal on a coarser grid does. -/

namespace Calculator

/-! ### Digits -/

theorem digitCountFrom_le_iff (n : ℕ) {start d : ℕ} (hStart : ∀ c < start, 10 ^ c ≤ n) :
    digitCountFrom n start ≤ d ↔ n < 10 ^ d := by
  fun_induction digitCountFrom n start with
  | case1 start h _ ih =>
    refine ih fun c hc => ?_
    rcases Nat.lt_or_eq_of_le (Nat.le_of_lt_succ hc) with hLt | rfl
    · exact hStart c hLt
    · exact h
  | case2 start h =>
    constructor
    · intro hLe
      exact (not_le.mp h).trans_le (Nat.pow_le_pow_right (by decide) hLe)
    · intro hLt
      by_contra hGt
      exact absurd (hStart d (not_le.mp hGt)) (not_le.mpr hLt)

/-- The search for the number of digits starts at a power of ten that is not too large. -/
theorem ten_pow_le_of_log2 {n : ℕ} (hn : n ≠ 0) : 10 ^ (n.log2 * 3 / 10) ≤ n := by
  have hTenth : (10 ^ (n.log2 * 3 / 10)) ^ 10 ≤ (2 ^ n.log2) ^ 10 := by
    calc (10 ^ (n.log2 * 3 / 10)) ^ 10 = 10 ^ (n.log2 * 3 / 10 * 10) := (pow_mul ..).symm
      _ ≤ 10 ^ (3 * n.log2) := Nat.pow_le_pow_right (by decide) (by omega)
      _ = (10 ^ 3) ^ n.log2 := pow_mul ..
      _ ≤ (2 ^ 10) ^ n.log2 := Nat.pow_le_pow_left (by decide) _
      _ = (2 ^ n.log2) ^ 10 := pow_right_comm 2 10 n.log2
  exact ((Nat.pow_le_pow_iff_left (by decide)).mp hTenth).trans (Nat.log2_self_le hn)

theorem digitCount_le_iff {n d : ℕ} : digitCount n ≤ d ↔ n < 10 ^ d := by
  unfold digitCount
  split
  · rename_i hZero
    simp [hZero]
  · rename_i hNonzero
    refine digitCountFrom_le_iff n fun c hc => ?_
    exact (Nat.pow_le_pow_right (by decide) hc.le).trans (ten_pow_le_of_log2 hNonzero)

theorem lt_digitCount_iff {n d : ℕ} : d < digitCount n ↔ 10 ^ d ≤ n := by
  rw [← not_le, digitCount_le_iff, not_lt]

theorem digitCount_eq_succ_iff {n d : ℕ} :
    digitCount n = d + 1 ↔ 10 ^ d ≤ n ∧ n < 10 ^ (d + 1) := by
  rw [← lt_digitCount_iff, ← digitCount_le_iff]
  omega

/-! ### Reading back -/

def decimalUnitsPerUnit : ℕ := 5 ^ 1074

theorem decimalUnitsPerUnit_pos : 0 < decimalUnitsPerUnit := by
  unfold decimalUnitsPerUnit
  -- with a variable for the exponent nothing tries to write the power out
  generalize 1074 = n
  exact Nat.pow_pos (by decide)

theorem roundsTo_div_iff {grid : ℕ → ℕ} {x d r : ℕ} (hd : 0 < d) :
    RoundsTo grid (x / d) r ↔
      (grid (r - 1) + grid r) * d ≤ 2 * x ∧ 2 * x ≤ (grid r + grid (r + 1)) * d ∧
      (r % 2 = 1 → (grid (r - 1) + grid r) * d < 2 * x ∧ 2 * x < (grid r + grid (r + 1)) * d) := by
  have hdq : (0 : ℚ) < d := by exact_mod_cast hd
  have hLe (a b : ℕ) : ((a + b) * d ≤ 2 * x) ↔ (a + b : ℚ) ≤ 2 * (x / d) := by
    rw [← mul_div_assoc, le_div_iff₀ hdq]
    exact_mod_cast Iff.rfl
  have hGe (a b : ℕ) : (2 * x ≤ (a + b) * d) ↔ 2 * (x / d : ℚ) ≤ a + b := by
    rw [← mul_div_assoc, div_le_iff₀ hdq]
    exact_mod_cast Iff.rfl
  have hLt (a b : ℕ) : ((a + b) * d < 2 * x) ↔ (a + b : ℚ) < 2 * (x / d) := by
    rw [← mul_div_assoc, lt_div_iff₀ hdq]
    exact_mod_cast Iff.rfl
  have hGt (a b : ℕ) : (2 * x < (a + b) * d) ↔ 2 * (x / d : ℚ) < a + b := by
    rw [← mul_div_assoc, div_lt_iff₀ hdq]
    exact_mod_cast Iff.rfl
  rw [hLe, hGe, hLt, hGt]
  constructor
  · intro h
    exact ⟨h.lower, h.upper, fun hOdd => ⟨h.lower_odd hOdd, h.upper_odd hOdd⟩⟩
  · rintro ⟨hLower, hUpper, hOdd⟩
    exact ⟨hLower, hUpper, fun h => (hOdd h).1, fun h => (hOdd h).2⟩

namespace Magnitude

theorem units_lt_units {m m' : Magnitude} (h : m.rank < m'.rank) : m.units < m'.units :=
  unitsOfRank_strictMono h

theorem decimalUnits_eq (m : Magnitude) : m.decimalUnits = m.units * decimalUnitsPerUnit := by
  unfold decimalUnits decimalUnitsPerUnit
  generalize 1074 = n
  rfl

theorem lowerBound_eq (m : Magnitude) :
    m.lowerBound = (unitsOfRank (m.rank - 1) + m.units) * decimalUnitsPerUnit := by
  unfold lowerBound decimalUnitsPerUnit
  generalize 1074 = n
  rfl

theorem upperBound_eq (m : Magnitude) :
    m.upperBound = (m.units + unitsOfRank (m.rank + 1)) * decimalUnitsPerUnit := by
  unfold upperBound decimalUnitsPerUnit
  generalize 1074 = n
  rfl

theorem decimalUnits_le_of_rank_le {m m' : Magnitude} (h : m.rank ≤ m'.rank) :
    m.decimalUnits ≤ m'.decimalUnits := by
  rw [decimalUnits_eq, decimalUnits_eq]
  exact Nat.mul_le_mul_right _ (unitsOfRank_strictMono.monotone h)

theorem readsBack_iff_bounds {m : Magnitude} {x : ℕ} :
    m.readsBack x = true ↔ m.lowerBound ≤ 2 * x ∧ 2 * x ≤ m.upperBound ∧
      (m.rank % 2 = 1 → m.lowerBound < 2 * x ∧ 2 * x < m.upperBound) := by
  unfold readsBack
  split
  · simp only [Bool.and_eq_true, decide_eq_true_eq]
    omega
  · simp only [Bool.and_eq_true, decide_eq_true_eq]
    omega

theorem readsBack_iff {m : Magnitude} {x : ℕ} :
    m.readsBack x = true ↔ RoundsTo unitsOfRank (x / decimalUnitsPerUnit) m.rank := by
  rw [readsBack_iff_bounds, roundsTo_div_iff decimalUnitsPerUnit_pos, lowerBound_eq, upperBound_eq]
  rfl

theorem readsBack_of_le {m : Magnitude} {x y z : ℕ} (hx : m.readsBack x = true)
    (hz : m.readsBack z = true) (hxy : x ≤ y) (hyz : y ≤ z) : m.readsBack y = true := by
  rw [readsBack_iff_bounds] at *
  omega

theorem readsBack_decimalUnits (m : Magnitude) : m.readsBack m.decimalUnits = true := by
  rw [readsBack_iff, decimalUnits_eq, Nat.cast_mul, mul_div_cancel_right₀]
  · exact .self unitsOfRank_strictMono m.rank
  · exact_mod_cast decimalUnitsPerUnit_pos.ne'

/-- Of two numbers that read back, the larger one reads as the larger magnitude. -/
theorem rank_le_of_readsBack {m m' : Magnitude} {x y : ℕ} (hx : m.readsBack x = true)
    (hy : m'.readsBack y = true) (hxy : x ≤ y) : m.rank ≤ m'.rank :=
  (readsBack_iff.mp hx).le_of_le unitsOfRank_strictMono (readsBack_iff.mp hy)
    (div_le_div_of_nonneg_right (by exact_mod_cast hxy) (Nat.cast_nonneg _))

/-- From a number that reads back on, and below another magnitude, every number reads as a magnitude
between the two. -/
theorem exists_readsBack {low high : Magnitude} {x y : ℕ} (hLow : low.readsBack x = true)
    (hxy : x ≤ y) (hHigh : 2 * y < high.lowerBound) :
    ∃ m : Magnitude, m.readsBack y = true ∧ low.rank ≤ m.rank ∧ m.rank < high.rank := by
  obtain ⟨rank, hRank⟩ := Decimal.exists_roundsTo (q := (y : ℚ) / decimalUnitsPerUnit)
    (div_nonneg (Nat.cast_nonneg _) (Nat.cast_nonneg _))
  have hBelow : rank < high.rank := by
    by_contra hAbove
    rw [not_lt] at hAbove
    have hLower := ((roundsTo_div_iff decimalUnitsPerUnit_pos).mp hRank).1
    have hBefore : unitsOfRank (high.rank - 1) ≤ unitsOfRank (rank - 1) :=
      unitsOfRank_strictMono.monotone (by omega)
    have hHere : high.units ≤ unitsOfRank rank := unitsOfRank_strictMono.monotone hAbove
    have := Nat.mul_le_mul_right decimalUnitsPerUnit (Nat.add_le_add hBefore hHere)
    rw [lowerBound_eq] at hHigh
    omega
  have hReads : readsBack ⟨rank, hBelow.trans high.rank_lt⟩ y = true := readsBack_iff.mpr hRank
  exact ⟨_, hReads, rank_le_of_readsBack hLow hReads hxy, hBelow⟩

/-- No magnitude lies nearer to a number than the one as which it reads back. -/
theorem nearest_of_readsBack {m m' : Magnitude} {x : ℕ} (h : m'.readsBack x = true) :
    m'.decimalUnits = m.decimalUnits ∨
      m.decimalUnits < m'.decimalUnits ∧ m.decimalUnits + m'.decimalUnits ≤ 2 * x ∨
      m'.decimalUnits < m.decimalUnits ∧ 2 * x ≤ m.decimalUnits + m'.decimalUnits := by
  obtain ⟨hLower, hUpper, -⟩ := readsBack_iff_bounds.mp h
  rw [lowerBound_eq, Nat.add_mul] at hLower
  rw [upperBound_eq, Nat.add_mul] at hUpper
  rw [decimalUnits_eq, decimalUnits_eq]
  rcases Nat.lt_trichotomy m.rank m'.rank with hLt | hEq | hGt
  · have hBefore : m.units ≤ unitsOfRank (m'.rank - 1) :=
      unitsOfRank_strictMono.monotone (by omega)
    have := Nat.mul_le_mul_right decimalUnitsPerUnit hBefore
    have := Nat.mul_lt_mul_of_pos_right (units_lt_units hLt) decimalUnitsPerUnit_pos
    omega
  · have : m'.units = m.units := by rw [units, units, hEq]
    rw [this]
    exact .inl rfl
  · have hAfter : unitsOfRank (m'.rank + 1) ≤ m.units := unitsOfRank_strictMono.monotone hGt
    have := Nat.mul_le_mul_right decimalUnitsPerUnit hAfter
    have := Nat.mul_lt_mul_of_pos_right (units_lt_units hGt) decimalUnitsPerUnit_pos
    omega

theorem units_decimalAt (place coefficient : ℕ) :
    (decimalAt place coefficient).units =
      (coefficient * 10 ^ place : ℕ) / decimalUnitsPerUnit := by
  unfold decimalAt Decimal.units Decimal.value decimalUnitsPerUnit
  rw [cast_unitsPerOne, show (1074 : ℤ) = (1074 : ℕ) from rfl]
  generalize 1074 = n
  dsimp only
  rw [zpow_sub₀ (by norm_num), zpow_natCast, zpow_natCast,
    show (10 : ℚ) ^ n = 2 ^ n * 5 ^ n by rw [← mul_pow]; norm_num]
  push_cast
  field_simp

theorem nearest?_decimalAt_iff {m : Magnitude} {place coefficient : ℕ} :
    (decimalAt place coefficient).nearest? = some m ↔
      m.readsBack (coefficient * 10 ^ place) = true := by
  rw [Decimal.nearest?_eq_some_iff, units_decimalAt, readsBack_iff]

theorem places_decimalAt (place coefficient : ℕ) :
    (decimalAt place coefficient).places = 1074 - place := by
  simp only [decimalAt, Decimal.places]
  omega

/-! ### The shortest decimal -/

theorem readsBack_of_gridPoint? {m : Magnitude} {place coefficient : ℕ}
    (h : m.gridPoint? place = some coefficient) :
    m.readsBack (coefficient * 10 ^ place) = true := by
  unfold gridPoint? at h
  dsimp only at h
  split at h
  · rename_i hDown
    obtain rfl := Option.some.inj h
    rw [Bool.and_eq_true] at hDown
    exact hDown.1
  · split at h
    · rename_i hUp
      obtain rfl := Option.some.inj h
      exact hUp
    · cases h

/-- A grid with a point that reads back has one next to the value that does. -/
theorem isSome_gridPoint? {m : Magnitude} {place k : ℕ}
    (h : m.readsBack (k * 10 ^ place) = true) : (m.gridPoint? place).isSome = true := by
  have hPower : 0 < 10 ^ place := Nat.pow_pos (by decide)
  have hNeighbour : m.readsBack (m.decimalUnits / 10 ^ place * 10 ^ place) = true ∨
      m.readsBack ((m.decimalUnits / 10 ^ place + 1) * 10 ^ place) = true := by
    rcases Nat.lt_or_ge (m.decimalUnits / 10 ^ place) k with hAbove | hBelow
    · right
      refine readsBack_of_le m.readsBack_decimalUnits h ?_ (Nat.mul_le_mul_right _ hAbove)
      exact (Nat.lt_mul_of_div_lt (Nat.lt_succ_self _) hPower).le
    · left
      exact readsBack_of_le h m.readsBack_decimalUnits (Nat.mul_le_mul_right _ hBelow)
        (Nat.div_mul_le_self ..)
  unfold gridPoint?
  dsimp only
  rcases hNeighbour with hDown | hUp
  · rw [hDown]
    split
    · rfl
    · rename_i hRejected
      rw [Bool.true_and, Bool.or_eq_true, not_or, Bool.not_eq_true', Bool.not_eq_false] at hRejected
      rw [if_pos hRejected.1]
      rfl
  · rw [hUp]
    split
    · rfl
    · rfl

/-- The search down from a place ends at the coarsest grid with a point that reads back. -/
theorem exists_shortestFrom (m : Magnitude) (place : ℕ) :
    ∃ p c, m.shortestFrom place = decimalAt p c ∧ m.readsBack (c * 10 ^ p) = true ∧
      ∀ q ≤ place, ∀ k, m.readsBack (k * 10 ^ q) = true → q ≤ p := by
  induction place with
  | zero =>
    refine ⟨0, m.decimalUnits, rfl, ?_, fun q hq _ _ => hq⟩
    rw [pow_zero, Nat.mul_one]
    exact m.readsBack_decimalUnits
  | succ place ih =>
    unfold shortestFrom
    split
    · rename_i c hPoint
      exact ⟨place + 1, c, rfl, readsBack_of_gridPoint? hPoint, fun q hq _ _ => hq⟩
    · rename_i hNone
      obtain ⟨p, c, hEq, hReads, hCoarsest⟩ := ih
      refine ⟨p, c, hEq, hReads, fun q hq k hk => ?_⟩
      rcases Nat.lt_or_eq_of_le hq with hLt | rfl
      · exact hCoarsest q (Nat.le_of_lt_succ hLt) k hk
      · have := isSome_gridPoint? hk
        rw [hNone] at this
        cases this

/-- The shortest decimal reads back as the magnitude. -/
theorem nearest?_shortest (m : Magnitude) : m.shortest.nearest? = some m := by
  unfold shortest
  split
  · rename_i hZero
    obtain ⟨rank, hRank⟩ := m
    obtain rfl : rank = 0 := hZero
    rfl
  · obtain ⟨p, c, hEq, hReads, -⟩ := m.exists_shortestFrom (digitCount m.decimalUnits)
    rw [hEq]
    exact nearest?_decimalAt_iff.mpr hReads

/-- A decimal that reads back and has no more digits before its place than the magnitude bounds the
places of the shortest one. -/
theorem places_shortest_le {m : Magnitude} {place k : ℕ} (hRank : m.rank ≠ 0)
    (hPlace : 10 ^ place ≤ m.decimalUnits) (h : m.readsBack (k * 10 ^ place) = true) :
    m.shortest.places ≤ 1074 - place := by
  obtain ⟨p, c, hEq, -, hCoarsest⟩ := m.exists_shortestFrom (digitCount m.decimalUnits)
  have hWithin : place ≤ p := hCoarsest place (lt_digitCount_iff.mpr hPlace).le k h
  rw [shortest, if_neg hRank, hEq, places_decimalAt]
  omega

end Magnitude

end Calculator
