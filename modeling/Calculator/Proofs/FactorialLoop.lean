import Calculator.Proofs.DisplayOrder
import Mathlib.Algebra.Order.Floor.Semifield

/-! The loop of the factorial. Its counter is a number of double precision, which would stop at
`2 ^ 53`, but the loop never gets there: no product of numbers from one on gets smaller by another
multiplication, and the one up to 171 is infinite. So the loop ends after at most 170 turns at any
bound. -/

namespace Calculator

/-- Up to 53 binary digits, followed by any number of zeros, are the value of a rank. -/
theorem exists_unitsOfRank_eq {k : ℕ} (row : ℕ) (h : k ≤ 2 ^ 53) :
    ∃ rank, unitsOfRank rank = k * 2 ^ row := by
  induction row generalizing k with
  | zero => exact ⟨0 * 2 ^ 52 + k, unitsOfRank_row h (.inl rfl)⟩
  | succ row ih =>
    by_cases hSmall : k < 2 ^ 52
    · obtain ⟨rank, hRank⟩ := ih (k := 2 * k) (by omega)
      exact ⟨rank, by rw [hRank, pow_succ]; ring⟩
    · exact ⟨(row + 1) * 2 ^ 52 + k, unitsOfRank_row h (.inr (by omega))⟩

namespace Binary64

variable {x y z : Binary64} {m : Magnitude}

/-! ### Order -/

theorem le_trans (h : x ≤ y) (h' : y ≤ z) : x ≤ z := by
  obtain ⟨a, ha, b, hb, hLe⟩ := h
  obtain ⟨b', hb', c, hc, hLe'⟩ := h'
  obtain rfl : b = b' := Option.mem_unique hb hb'
  exact ⟨a, ha, c, hc, hLe.trans hLe'⟩

theorem eq_infinite_of_le (h : infinite false ≤ x) : x = infinite false := by
  obtain ⟨a, ha, b, hb, hLe⟩ := h
  obtain rfl : (magnitudeCount : ℤ) = a := Option.some.inj ha
  cases x with
  | nan signaling => cases hb
  | infinite negative =>
    cases negative with
    | false => rfl
    | true =>
      obtain rfl : -(magnitudeCount : ℤ) = b := Option.some.inj hb
      exact absurd hLe (by decide)
  | finite negative m =>
    rw [place?_finite, Option.mem_some_iff] at hb
    have := m.rank_lt
    split at hb <;> omega

theorem finite_le_infinite (negative : Bool) (m : Magnitude) :
    finite negative m ≤ infinite false := by
  rw [le_iff_of_place? (place?_finite ..) rfl]
  have := m.rank_lt
  split <;> omega

theorem finite_eq_ofRank (negative : Bool) (m : Magnitude) :
    finite negative m = ofRank negative m.rank := by
  rw [ofRank, dif_pos m.rank_lt]

theorem ofRank_le_ofRank {rank rank' : ℕ} (h : rank ≤ rank') :
    ofRank false rank ≤ ofRank false rank' := by
  rw [le_iff_of_place? (place?_ofRank ..) (place?_ofRank ..)]
  simp only [Bool.false_eq_true, if_false]
  omega

/-- Rounding to nearest keeps the order. -/
theorem rounded_le_rounded {n d n' d' : ℕ} (hd : 0 < d) (hd' : 0 < d') (h : n * d' ≤ n' * d) :
    rounded false n d ≤ rounded false n' d' := by
  have hValue : (n / d : ℚ) ≤ n' / d' := by
    rw [div_le_div_iff₀ (by exact_mod_cast hd) (by exact_mod_cast hd')]
    exact_mod_cast h
  rw [rounded_eq_ofRank, rounded_eq_ofRank]
  exact ofRank_le_ofRank ((roundsTo_nearestRank n hd).le_of_le unitsOfRank_strictMono
    (roundsTo_nearestRank n' hd') hValue)

theorem rounded_units (m : Magnitude) : rounded false m.units 1 = finite false m := by
  have hRounds := roundsTo_nearestRank m.units Nat.one_pos
  rw [Nat.cast_one, div_one] at hRounds
  rw [rounded_eq_ofRank, finite_eq_ofRank,
    hRounds.unique unitsOfRank_strictMono (.self unitsOfRank_strictMono m.rank)]

/-! ### Natural numbers -/

theorem zero_lt_unitsPerOne : 0 < unitsPerOne := by
  exact_mod_cast unitsPerOne_pos

theorem ofNat_le_ofNat {a b : ℕ} (h : a ≤ b) : ofNat a ≤ ofNat b :=
  rounded_le_rounded Nat.one_pos Nat.one_pos
    (Nat.mul_le_mul_right 1 (Nat.mul_le_mul_right unitsPerOne h))

/-- Natural numbers of up to 53 binary digits are not rounded. -/
theorem exists_ofNat_eq {n : ℕ} (h : n ≤ 2 ^ 53) :
    ∃ m, ofNat n = finite false m ∧ m.units = n * unitsPerOne := by
  obtain ⟨rank, hUnits⟩ : ∃ rank, unitsOfRank rank = n * unitsPerOne := by
    unfold unitsPerOne
    generalize 1074 = row
    exact exists_unitsOfRank_eq row h
  have hFinite : rank < magnitudeCount := by
    rw [← unitsOfRank_strictMono.lt_iff_lt, ← Nat.cast_lt (α := ℚ), unitsOfRank_magnitudeCount,
      hUnits, Nat.cast_mul]
    refine mul_lt_mul_of_pos_right ?_ unitsPerOne_pos
    calc (n : ℚ) ≤ 2 ^ 53 := by exact_mod_cast h
      _ < 2 ^ 1024 := pow_lt_pow_right₀ (by norm_num) (by norm_num)
  refine ⟨⟨rank, hFinite⟩, ?_, hUnits⟩
  rw [ofNat, ← hUnits]
  exact rounded_units ⟨rank, hFinite⟩

/-- Counting up by one is exact. -/
theorem ofNat_add_one {n : ℕ} (h : n ≤ 2 ^ 53) : ofNat n + ofNat 1 = ofNat (n + 1) := by
  obtain ⟨m, hFirst, hUnits⟩ := exists_ofNat_eq h
  obtain ⟨one, hSecond, hUnits'⟩ := exists_ofNat_eq (n := 1) (by decide)
  have hSum : signedUnits false m + signedUnits false one = ((n + 1) * unitsPerOne : ℕ) := by
    simp only [signedUnits, Bool.false_eq_true, if_false, hUnits, hUnits']
    push_cast
    ring
  have hNonzero : ((n + 1) * unitsPerOne : ℕ) ≠ (0 : ℤ) := by
    exact_mod_cast (Nat.mul_pos n.succ_pos zero_lt_unitsPerOne).ne'
  rw [hFirst, hSecond, ofNat]
  show add _ _ = _
  simp only [add, hSum, if_neg hNonzero, Int.natAbs_natCast]
  rw [decide_eq_false (by omega)]

/-- The order of a natural number and a finite number is that of their exact values. -/
theorem ofNat_le_finite_iff {k : ℕ} {negative : Bool} (h : k ≤ 2 ^ 53) :
    ofNat k ≤ finite negative m ↔ (k * unitsPerOne : ℕ) ≤ signedUnits negative m := by
  obtain ⟨exact, hExact, hUnits⟩ := exists_ofNat_eq h
  rw [hExact, finite_le_finite_iff, signedUnits, hUnits]
  rfl

theorem ofNat_le_infinite {k : ℕ} (h : k ≤ 2 ^ 53) : ofNat k ≤ infinite false := by
  obtain ⟨exact, hExact, -⟩ := exists_ofNat_eq h
  rw [hExact]
  exact finite_le_infinite ..

/-! ### Products of numbers from one on -/

theorem zero_le_iff :
    zero ≤ x ↔ x = infinite false ∨
      ∃ negative m, x = finite negative m ∧ (negative = true → m.rank = 0) := by
  have hZero : zero.place? = some 0 := rfl
  cases x with
  | nan signaling =>
    simp only [reduceCtorEq, false_and, exists_false, or_self, iff_false]
    rintro ⟨a, _, b, hb, _⟩
    cases hb
  | infinite negative =>
    cases negative with
    | false => exact iff_of_true ((le_iff_of_place? hZero rfl).mpr (by decide)) (.inl rfl)
    | true => exact iff_of_false (mt (le_iff_of_place? hZero rfl).mp (by decide)) (by simp)
  | finite negative m =>
    rw [le_iff_of_place? hZero (place?_finite ..)]
    cases negative <;> simp

theorem one_le_iff :
    ofNat 1 ≤ x ↔ x = infinite false ∨ ∃ m, x = finite false m ∧ unitsPerOne ≤ m.units := by
  have hZero : zero ≤ ofNat 1 := by
    obtain ⟨one, hOne, -⟩ := exists_ofNat_eq (n := 1) (by decide)
    exact zero_le_iff.2 (.inr ⟨false, one, hOne, nofun⟩)
  constructor
  · intro h
    obtain rfl | ⟨negative, m, rfl, hSign⟩ := zero_le_iff.1 (le_trans hZero h)
    · exact .inl rfl
    · rw [ofNat_le_finite_iff (by decide), Nat.one_mul] at h
      cases negative with
      | false => exact .inr ⟨m, rfl, Int.ofNat_le.mp h⟩
      | true =>
        have hPos := zero_lt_unitsPerOne
        rw [signedUnits, if_pos rfl] at h
        omega
  · rintro (rfl | ⟨m, rfl, hUnits⟩)
    · exact ofNat_le_infinite (by decide)
    · rw [ofNat_le_finite_iff (by decide), Nat.one_mul]
      exact Int.ofNat_le.mpr hUnits

theorem finite_mul_finite (m n : Magnitude) :
    finite false m * finite false n = rounded false (m.units * n.units) unitsPerOne := by
  show mul _ _ = _
  simp only [mul, bne_self_eq_false]

theorem infinite_mul_finite (h : m.rank ≠ 0) :
    infinite false * finite false m = infinite false := if_neg h

theorem finite_mul_infinite (h : m.rank ≠ 0) :
    finite false m * infinite false = infinite false := if_neg h

theorem rank_ne_zero (h : unitsPerOne ≤ m.units) : m.rank ≠ 0 := by
  intro hRank
  have hUnits : m.units = 0 := by
    rw [Magnitude.units, hRank]
    rfl
  exact (Nat.lt_of_lt_of_le zero_lt_unitsPerOne h).ne' hUnits

/-- A product of two numbers from one on is no less than they are. -/
theorem le_mul (hx : ofNat 1 ≤ x) (hy : ofNat 1 ≤ y) : x ≤ x * y := by
  have hInfinite : infinite false ≤ infinite false := (le_iff_of_place? rfl rfl).mpr le_rfl
  rcases one_le_iff.1 hx with rfl | ⟨m, rfl, hm⟩ <;>
    rcases one_le_iff.1 hy with rfl | ⟨n, rfl, hn⟩
  · exact hInfinite
  · rw [infinite_mul_finite (rank_ne_zero hn)]
    exact hInfinite
  · rw [finite_mul_infinite (rank_ne_zero hm)]
    exact finite_le_infinite ..
  · rw [finite_mul_finite, ← rounded_units m]
    refine rounded_le_rounded Nat.one_pos zero_lt_unitsPerOne ?_
    rw [Nat.mul_one]
    exact Nat.mul_le_mul_left _ hn

/-! ### The product -/

/-- The product of the numbers from two to `n` in increasing order, rounded after each
multiplication. -/
def rangeProduct : ℕ → Binary64
  | 0 => ofNat 1
  | 1 => ofNat 1
  | n + 2 => rangeProduct (n + 1) * ofNat (n + 2)

variable {n n' : ℕ}

theorem rangeProduct_succ (h : 1 ≤ n) : rangeProduct (n + 1) = rangeProduct n * ofNat (n + 1) := by
  obtain ⟨k, rfl⟩ := Nat.exists_eq_add_of_le' h
  rfl

theorem one_le_rangeProduct : ∀ n, ofNat 1 ≤ rangeProduct n
  | 0 => ofNat_le_ofNat le_rfl
  | 1 => ofNat_le_ofNat le_rfl
  | n + 2 =>
    have ih := one_le_rangeProduct (n + 1)
    le_trans ih (le_mul ih (ofNat_le_ofNat (by omega)))

theorem rangeProduct_le_succ (n : ℕ) : rangeProduct n ≤ rangeProduct (n + 1) := by
  cases n with
  | zero => exact one_le_rangeProduct 1
  | succ n => exact le_mul (one_le_rangeProduct (n + 1)) (ofNat_le_ofNat (by omega))

theorem rangeProduct_le_rangeProduct (h : n ≤ n') : rangeProduct n ≤ rangeProduct n' := by
  induction n', h using Nat.le_induction with
  | base =>
    obtain ⟨b, -, a, ha, -⟩ := one_le_rangeProduct n
    exact ⟨a, ha, a, ha, le_rfl⟩
  | succ k _ ih => exact le_trans ih (rangeProduct_le_succ k)

/-! ### The ranks of the products

Multiplying a number by a natural number moves its rank by as much in every row but the first, so
the ranks of the products come from numbers of a few more than 53 binary digits. -/

/-- The rank of the product of a number of this rank and a natural number. -/
def scaleRank (rank k : ℕ) : ℕ :=
  nearestRank ((2 ^ 52 + rank % 2 ^ 52) * k) 1 + (rank / 2 ^ 52 - 1) * 2 ^ 52

theorem scaleRank_eq {rank k : ℕ} (hRank : 2 ^ 52 ≤ rank) (hPos : 0 < k) :
    scaleRank rank k = nearestRank (unitsOfRank rank * k) 1 := by
  have hSize : 2 ^ 52 ≤ (2 ^ 52 + rank % 2 ^ 52) * k :=
    (Nat.le_add_right ..).trans (Nat.le_mul_of_pos_right _ hPos)
  rw [unitsOfRank, if_neg (not_lt.mpr hRank), Nat.mul_right_comm, nearestRank_mul_two_pow hSize,
    scaleRank]

theorem le_scaleRank {rank k : ℕ} (hRank : 2 ^ 52 ≤ rank) (hPos : 0 < k) :
    rank ≤ scaleRank rank k := by
  have hRounds := roundsTo_nearestRank (unitsOfRank rank * k) Nat.one_pos
  rw [Nat.cast_one, div_one] at hRounds
  rw [scaleRank_eq hRank hPos]
  exact (RoundsTo.self unitsOfRank_strictMono rank).le_of_le unitsOfRank_strictMono hRounds
    (by exact_mod_cast Nat.le_mul_of_pos_right _ hPos)

theorem ofRank_mul_ofNat {rank k : ℕ} (hRank : 2 ^ 52 ≤ rank) (hPos : 0 < k) (hk : k ≤ 2 ^ 53) :
    ofRank false rank * ofNat k = ofRank false (scaleRank rank k) := by
  obtain ⟨factor, hFactor, hUnits⟩ := exists_ofNat_eq hk
  rw [hFactor]
  by_cases hFinite : rank < magnitudeCount
  · have hProduct : unitsOfRank rank * (k * unitsPerOne) =
        unitsOfRank rank * k * unitsPerOne := (Nat.mul_assoc ..).symm
    have hScaled := nearestRank_mul_mul (unitsOfRank rank * k) Nat.one_pos zero_lt_unitsPerOne
    rw [Nat.one_mul] at hScaled
    rw [ofRank, dif_pos hFinite, finite_mul_finite, hUnits, Magnitude.units, hProduct,
      rounded_eq_ofRank, hScaled, scaleRank_eq hRank hPos]
  · have hNonzero : factor.rank ≠ 0 := by
      refine rank_ne_zero ?_
      rw [hUnits]
      exact Nat.le_mul_of_pos_left _ hPos
    have hBeyond : ¬scaleRank rank k < magnitudeCount := fun h =>
      hFinite ((le_scaleRank hRank hPos).trans_lt h)
    rw [ofRank, dif_neg hFinite, ofRank, dif_neg hBeyond, infinite_mul_finite hNonzero]

/-- The rank of the product of the numbers from two to `n`, from that of one on. -/
def rankProduct : ℕ → ℕ
  | 0 => 1023 * 2 ^ 52
  | 1 => 1023 * 2 ^ 52
  | n + 2 => scaleRank (rankProduct (n + 1)) (n + 2)

theorem le_rankProduct : ∀ n, 2 ^ 52 ≤ rankProduct n
  | 0 => by decide
  | 1 => by decide
  | n + 2 => (le_rankProduct (n + 1)).trans
      (le_scaleRank (le_rankProduct (n + 1)) (Nat.succ_pos _))

theorem ofNat_one : ofNat 1 = ofRank false (1023 * 2 ^ 52) := by
  have hRow {row place : ℕ} (h : row + 52 = place) :
      unitsOfRank (row * 2 ^ 52 + 2 ^ 52) = 2 ^ place := by
    rw [unitsOfRank_row (by decide) (.inr le_rfl), ← pow_add, Nat.add_comm, h]
  have hUnits : unitsPerOne = unitsOfRank (1023 * 2 ^ 52) := by
    unfold unitsPerOne
    generalize hPlace : 1074 = place
    exact (@hRow 1022 place hPlace).symm
  rw [ofNat, Nat.one_mul, hUnits]
  exact (rounded_units ⟨1023 * 2 ^ 52, by decide⟩).trans (finite_eq_ofRank ..)

theorem rangeProduct_eq_ofRank :
    ∀ {n : ℕ}, n ≤ 2 ^ 53 → rangeProduct n = ofRank false (rankProduct n)
  | 0, _ => ofNat_one
  | 1, _ => ofNat_one
  | n + 2, h => by
    rw [rangeProduct, rangeProduct_eq_ofRank (by omega), rankProduct,
      ofRank_mul_ofNat (le_rankProduct (n + 1)) (Nat.succ_pos _) h]

/-- The factorial of 170 is the last one that double precision can hold. -/
theorem rangeProduct_first_infinite :
    (rangeProduct 170).isFinite = true ∧ rangeProduct 171 = infinite false := by
  have hRanks : rankProduct 170 < magnitudeCount ∧ magnitudeCount ≤ rankProduct 171 := by
    decide +kernel
  rw [rangeProduct_eq_ofRank (by decide), rangeProduct_eq_ofRank (by decide), ofRank, ofRank,
    dif_pos hRanks.1, dif_neg (not_lt.mpr hRanks.2)]
  exact ⟨rfl, rfl⟩

theorem rangeProduct_cases (n : ℕ) :
    rangeProduct n = infinite false ∨ ∃ m, rangeProduct n = finite false m :=
  (one_le_iff.1 (one_le_rangeProduct n)).imp_right fun ⟨m, hFinite, _⟩ => ⟨m, hFinite⟩

theorem isFinite_rangeProduct_iff : (rangeProduct n).isFinite = true ↔ n ≤ 170 := by
  obtain ⟨hLast, hFirst⟩ := rangeProduct_first_infinite
  constructor
  · intro h
    by_contra hLate
    have hLe := rangeProduct_le_rangeProduct (show 171 ≤ n by omega)
    rw [hFirst] at hLe
    rw [eq_infinite_of_le hLe] at h
    cases h
  · intro h
    rcases rangeProduct_cases n with hInfinite | ⟨m, hFinite⟩
    · have hLe := rangeProduct_le_rangeProduct h
      rw [hInfinite] at hLe
      rw [eq_infinite_of_le hLe] at hLast
      cases hLast
    · rw [hFinite]
      rfl

theorem rangeProduct_eq_infinite_iff : rangeProduct n = infinite false ↔ 171 ≤ n := by
  rw [← Nat.not_lt, Nat.lt_succ_iff, ← isFinite_rangeProduct_iff]
  rcases rangeProduct_cases n with h | ⟨m, h⟩
  · rw [h]
    exact iff_of_true rfl nofun
  · rw [h]
    exact iff_of_false nofun (fun hNot => hNot rfl)

/-- What stops at an infinite product loses nothing. -/
theorem mulRange_rangeProduct {bound i left : ℕ} (hFrom : 1 ≤ i) (h : i + left = bound) :
    mulRange bound (i + 1) (rangeProduct i) = rangeProduct bound := by
  induction left generalizing i with
  | zero =>
    obtain rfl : i = bound := h
    rw [mulRange, if_neg (by omega)]
  | succ left ih =>
    rw [mulRange]
    by_cases hFinite : (rangeProduct i).isFinite = true
    · rw [if_pos ⟨by omega, hFinite⟩, ← rangeProduct_succ hFrom]
      exact ih (by omega) (by omega)
    · have hLate : 171 ≤ i := by
        rw [isFinite_rangeProduct_iff] at hFinite
        omega
      rw [if_neg (fun h => hFinite h.2), rangeProduct_eq_infinite_iff.2 hLate,
        rangeProduct_eq_infinite_iff.2 (by omega)]

theorem mulRange_eq (bound : ℕ) : mulRange bound 2 (ofNat 1) = rangeProduct bound := by
  cases bound with
  | zero => rw [mulRange, if_neg (by omega), rangeProduct]
  | succ bound => exact mulRange_rangeProduct (i := 1) le_rfl (Nat.add_comm 1 bound)

theorem rangeProduct_min (n : ℕ) : rangeProduct (min n 171) = rangeProduct n := by
  rcases Nat.le_total n 171 with h | h
  · rw [Nat.min_eq_left h]
  · rw [Nat.min_eq_right h, rangeProduct_eq_infinite_iff.2 h, rangeProduct_first_infinite.2]

/-! ### The integer part -/

/-- The greatest integer up to a number. -/
def floor : Binary64 → Binary64
  | nan _ => notANumber
  | infinite negative => infinite negative
  | finite false m => ofNat (m.units / unitsPerOne)
  | finite true m => -ofNat ((m.units + (unitsPerOne - 1)) / unitsPerOne)

/-- The integers next to a finite number are not rounded: from `2 ^ 53` on the number itself is an
integer. -/
theorem exists_ofNat_eq_of_near {q : ℕ} (hBelow : q * unitsPerOne < m.units + unitsPerOne)
    (hAbove : m.units < (q + 1) * unitsPerOne) :
    ∃ m', ofNat q = finite false m' ∧ m'.units = q * unitsPerOne := by
  obtain ⟨row, k, hRank, hk, hRow⟩ := exists_row m.rank
  have hUnits : m.units = k * 2 ^ row := by rw [Magnitude.units, hRank, unitsOfRank_row hk.le hRow]
  by_cases hInteger : unitsPerOne ∣ 2 ^ row
  · obtain ⟨p, hp⟩ := hInteger.trans (Dvd.intro_left k rfl)
    rw [hp, Nat.mul_comm] at hUnits
    rw [hUnits] at hBelow hAbove
    have hEq : q = p := by
      have := Nat.lt_of_mul_lt_mul_right hAbove
      rw [← Nat.succ_mul] at hBelow
      have := Nat.lt_of_mul_lt_mul_right hBelow
      omega
    refine ⟨m, ?_, hEq ▸ hUnits⟩
    rw [ofNat, hEq, ← hUnits, rounded_units]
  · have hSmall : 2 ^ row ≤ unitsPerOne := by
      unfold unitsPerOne at hInteger ⊢
      generalize 1074 = place at hInteger ⊢
      refine Nat.pow_le_pow_right (by decide) (not_lt.mp fun hLate => ?_)
      exact hInteger (Nat.pow_dvd_pow 2 hLate.le)
    have hLess : q * unitsPerOne < (k + 1) * unitsPerOne := by
      rw [Nat.succ_mul]
      refine hBelow.trans_le (Nat.add_le_add_right ?_ _)
      rw [hUnits]
      exact Nat.mul_le_mul_left k hSmall
    have : q < k + 1 := Nat.lt_of_mul_lt_mul_right hLess
    exact exists_ofNat_eq (by omega)

theorem neg_ediv_eq {units d q : ℕ} (hPos : 0 < d) (hLow : units ≤ q * d)
    (hHigh : q * d < units + d) : -(units : ℤ) / d = -q := by
  have hPos' : (0 : ℤ) < d := by exact_mod_cast hPos
  have hLow' : (units : ℤ) ≤ q * d := by exact_mod_cast hLow
  have hHigh' : (q * d : ℤ) < units + d := by exact_mod_cast hHigh
  refine le_antisymm (Int.lt_add_one_iff.mp ?_) ?_
  · rw [Int.ediv_lt_iff_lt_mul hPos']
    linarith
  · rw [Int.le_ediv_iff_mul_le hPos']
    linarith

/-- The integer part is exact. -/
theorem exists_floor_eq (negative : Bool) (m : Magnitude) :
    ∃ m', (finite negative m).floor = finite negative m' ∧
      signedUnits negative m' = signedUnits negative m / unitsPerOne * unitsPerOne := by
  have hPos := zero_lt_unitsPerOne
  cases negative with
  | false =>
    have hDivision := Nat.div_add_mod' m.units unitsPerOne
    have hRemainder := Nat.mod_lt m.units hPos
    obtain ⟨m', hFloor, hUnits⟩ := exists_ofNat_eq_of_near (m := m)
      (q := m.units / unitsPerOne) (by omega) (by rw [Nat.succ_mul]; omega)
    refine ⟨m', hFloor, ?_⟩
    simp only [signedUnits, Bool.false_eq_true, if_false, hUnits]
    push_cast
    rfl
  | true =>
    have hDivision := Nat.div_add_mod' (m.units + (unitsPerOne - 1)) unitsPerOne
    have hRemainder := Nat.mod_lt (m.units + (unitsPerOne - 1)) hPos
    obtain ⟨m', hFloor, hUnits⟩ := exists_ofNat_eq_of_near (m := m)
      (q := (m.units + (unitsPerOne - 1)) / unitsPerOne) (by omega) (by rw [Nat.succ_mul]; omega)
    refine ⟨m', by rw [floor, hFloor]; rfl, ?_⟩
    have hQuotient : -(m.units : ℤ) / unitsPerOne =
        -((m.units + (unitsPerOne - 1)) / unitsPerOne : ℕ) :=
      neg_ediv_eq hPos (by omega) (by omega)
    simp only [signedUnits, if_true, hUnits, hQuotient]
    push_cast
    ring

theorem ofNat_le_floor_iff {x : Binary64} {k : ℕ} (h : k ≤ 2 ^ 53) :
    ofNat k ≤ x.floor ↔ ofNat k ≤ x := by
  cases x with
  | nan signaling =>
    refine iff_of_false ?_ ?_ <;>
    · rintro ⟨_, _, b, hb, _⟩
      cases hb
  | infinite negative => rfl
  | finite negative m =>
    obtain ⟨m', hFloor, hUnits⟩ := exists_floor_eq negative m
    have hPos : (0 : ℤ) < unitsPerOne := Int.ofNat_lt.mpr zero_lt_unitsPerOne
    rw [hFloor, ofNat_le_finite_iff h, ofNat_le_finite_iff h, hUnits]
    push_cast
    rw [mul_le_mul_iff_left₀ hPos, Int.le_ediv_iff_mul_le hPos]

/-! ### The loop -/

/-- `last` is the integer part of `x`, or 171 if that is less. -/
structure Reaches (x : Binary64) (last : ℕ) : Prop where
  last_le : last ≤ 171
  le_iff : ∀ k ≤ 171, ofNat k ≤ x ↔ k ≤ last

/-- The turns of the loop that multiplies onto a product what a counter of double precision holds,
while that is up to the bound and the product is finite. -/
inductive Turns (bound : Binary64) : ℕ → Binary64 → Binary64 → Binary64 → Prop
  | done {counter product : Binary64} :
    ¬(counter ≤ bound ∧ product.isFinite = true) → Turns bound 0 counter product product
  | next {turns : ℕ} {counter product result : Binary64} :
    counter ≤ bound → product.isFinite = true →
      Turns bound turns (counter + ofNat 1) (product * counter) result →
      Turns bound (turns + 1) counter product result

theorem Turns.unique {bound counter product result result' : Binary64} {turns turns' : ℕ}
    (h : Turns bound turns counter product result)
    (h' : Turns bound turns' counter product result') : turns' = turns ∧ result' = result := by
  induction h generalizing turns' with
  | done hStop =>
    cases h' with
    | done => exact ⟨rfl, rfl⟩
    | next hLe hFinite _ => exact absurd ⟨hLe, hFinite⟩ hStop
  | next hLe hFinite _ ih =>
    cases h' with
    | done hStop => exact absurd ⟨hLe, hFinite⟩ hStop
    | next _ _ h' =>
      obtain ⟨rfl, rfl⟩ := ih h'
      exact ⟨rfl, rfl⟩

theorem Reaches.last_le_last {last last' : ℕ} (hReaches : Reaches x last)
    (hReaches' : Reaches y last') (h : ∀ k ≤ 171, ofNat k ≤ x → ofNat k ≤ y) : last ≤ last' :=
  (hReaches'.le_iff last hReaches.last_le).mp
    (h last hReaches.last_le ((hReaches.le_iff last hReaches.last_le).mpr le_rfl))

/-- With the counter at `i + 1` and the product of the numbers up to `i`, the loop ends in the
product up to the last number. Each turn leaves the counter exact, and each turn before the 171st
leaves the product finite. -/
theorem Reaches.turns {bound : Binary64} {last i left : ℕ} (hReaches : Reaches bound last)
    (hFrom : 1 ≤ i) (h : i + left = last) :
    Turns bound left (ofNat (i + 1)) (rangeProduct i) (rangeProduct last) := by
  have hLast := hReaches.last_le
  induction left generalizing i with
  | zero =>
    obtain rfl : i = last := h
    refine .done fun ⟨hLe, hFinite⟩ => ?_
    have := isFinite_rangeProduct_iff.1 hFinite
    have := (hReaches.le_iff (i + 1) (by omega)).mp hLe
    omega
  | succ left ih =>
    have hTurns := ih (i := i + 1) (by omega) (by omega)
    rw [rangeProduct_succ hFrom, ← ofNat_add_one (by omega)] at hTurns
    exact .next ((hReaches.le_iff (i + 1) (by omega)).mpr (by omega))
      (isFinite_rangeProduct_iff.2 (by omega)) hTurns

/-- The whole loop takes at most 170 turns. -/
theorem Reaches.exists_turns {bound : Binary64} {last : ℕ} (hReaches : Reaches bound last) :
    ∃ turns ≤ 170, Turns bound turns (ofNat 2) (ofNat 1) (rangeProduct last) := by
  have hLast := hReaches.last_le
  rcases Nat.eq_zero_or_pos last with rfl | hPos
  · refine ⟨0, by omega, .done fun h => ?_⟩
    have := (hReaches.le_iff 2 (by omega)).mp h.1
    omega
  · exact ⟨last - 1, by omega, hReaches.turns (i := 1) le_rfl (by omega)⟩

theorem signedUnits_of_nonnegative {negative : Bool} (h : negative = true → m.rank = 0) :
    signedUnits negative m = m.units := by
  cases negative with
  | false => rfl
  | true =>
    have hUnits : m.units = 0 := by
      rw [Magnitude.units, h rfl]
      rfl
    rw [signedUnits, hUnits]
    rfl

theorem factorial_finite {negative : Bool} (h : negative = true → m.rank = 0) :
    (finite negative m).factorial = rangeProduct (m.units / unitsPerOne) := by
  have hNone : ¬(negative && m.rank != 0) = true := by
    cases negative <;> simp_all
  rw [factorial, if_neg hNone, mulRange_eq]

theorem exists_reaches (h : zero ≤ x) :
    ∃ last, Reaches x last ∧ x.factorial = rangeProduct last := by
  obtain rfl | ⟨negative, m, rfl, hSign⟩ := zero_le_iff.1 h
  · exact ⟨171, ⟨le_rfl, fun k hk => iff_of_true (ofNat_le_infinite (by omega)) hk⟩,
      rangeProduct_first_infinite.2.symm⟩
  · refine ⟨min (m.units / unitsPerOne) 171, ⟨by omega, fun k hk => ?_⟩, ?_⟩
    · rw [ofNat_le_finite_iff (by omega), signedUnits_of_nonnegative hSign, Int.ofNat_le,
        ← Nat.le_div_iff_mul_le zero_lt_unitsPerOne]
      omega
    · rw [rangeProduct_min, factorial_finite hSign]

/-! ### The factorial -/

theorem ofNat_zero : ofNat 0 = zero := by
  rw [ofNat, Nat.zero_mul]
  exact rounded_units .zero

theorem le_congr_right (h : y.place? = z.place?) : x ≤ y ↔ x ≤ z := by
  show (∃ a ∈ x.place?, ∃ b ∈ y.place?, a ≤ b) ↔ ∃ a ∈ x.place?, ∃ b ∈ z.place?, a ≤ b
  rw [h]

theorem factorial_of_not_zero_le (h : ¬zero ≤ x) : x.factorial = notANumber := by
  rw [zero_le_iff, not_or] at h
  cases x with
  | nan signaling => rfl
  | infinite negative =>
    cases negative with
    | false => exact absurd rfl h.1
    | true => rfl
  | finite negative m =>
    refine if_pos ?_
    by_contra hNone
    refine h.2 ⟨negative, m, rfl, fun hNegative => ?_⟩
    simpa [hNegative] using hNone

theorem factorial_le_factorial (hZero : zero ≤ x) (h : x ≤ y) : x.factorial ≤ y.factorial := by
  obtain ⟨last, hReaches, hLast⟩ := exists_reaches hZero
  obtain ⟨last', hReaches', hLast'⟩ := exists_reaches (le_trans hZero h)
  rw [hLast, hLast']
  exact rangeProduct_le_rangeProduct
    (hReaches.last_le_last hReaches' fun _ _ hLe => le_trans hLe h)

theorem factorial_eq_infinite_iff : x.factorial = infinite false ↔ ofNat 171 ≤ x := by
  by_cases h : zero ≤ x
  · obtain ⟨last, hReaches, hLast⟩ := exists_reaches h
    rw [hLast, rangeProduct_eq_infinite_iff, hReaches.le_iff 171 le_rfl]
  · rw [factorial_of_not_zero_le h]
    refine iff_of_false nofun fun hLe => h (le_trans ?_ hLe)
    rw [← ofNat_zero]
    exact ofNat_le_ofNat (by omega)

theorem Reaches.floor {last : ℕ} (h : Reaches x last) : Reaches x.floor last :=
  ⟨h.last_le, fun k hk => (ofNat_le_floor_iff (by omega)).trans (h.le_iff k hk)⟩

theorem factorial_congr (h : x.floor.place? = y.floor.place?) : x.factorial = y.factorial := by
  have hOfNat (k : ℕ) (hk : k ≤ 171) : ofNat k ≤ x ↔ ofNat k ≤ y := by
    rw [← ofNat_le_floor_iff (by omega), le_congr_right h, ofNat_le_floor_iff (by omega)]
  have hZero : zero ≤ x ↔ zero ≤ y := by
    rw [← ofNat_zero]
    exact hOfNat 0 (by omega)
  by_cases hx : zero ≤ x
  · obtain ⟨last, hReaches, hLast⟩ := exists_reaches hx
    obtain ⟨last', hReaches', hLast'⟩ := exists_reaches (hZero.mp hx)
    rw [hLast, hLast', le_antisymm
      (hReaches.last_le_last hReaches' fun k hk => (hOfNat k hk).mp)
      (hReaches'.last_le_last hReaches fun k hk => (hOfNat k hk).mpr)]
  · rw [factorial_of_not_zero_le hx, factorial_of_not_zero_le (mt hZero.mpr hx)]

/-- The factorial is the product of the numbers from two to the integer part, rounded after each
multiplication; what is negative or not a number has none. The loop over a counter of double
precision ends in it after at most 170 turns, and that at an infinite bound too. It depends on the
integer part alone, is infinite from 171 on and never gets smaller. -/
theorem factorial_loop (x : Binary64) :
    (¬zero ≤ x → x.factorial = notANumber) ∧
      (zero ≤ x → ∃ turns ≤ 170, ∀ turns' result,
        Turns x.floor turns' (ofNat 2) (ofNat 1) result ↔ turns' = turns ∧ result = x.factorial) ∧
      (∀ negative m, x = finite negative m → zero ≤ x → x.factorial = rangeProduct ⌊m.value⌋₊) ∧
      (∀ y : Binary64, x.floor.place? = y.floor.place? → x.factorial = y.factorial) ∧
      (x.factorial = infinite false ↔ ofNat 171 ≤ x) ∧
      ∀ y : Binary64, zero ≤ x → x ≤ y → x.factorial ≤ y.factorial := by
  refine ⟨factorial_of_not_zero_le, fun h => ?_, ?_, fun _ => factorial_congr,
    factorial_eq_infinite_iff, fun _ => factorial_le_factorial⟩
  · obtain ⟨last, hReaches, hLast⟩ := exists_reaches h
    obtain ⟨turns, hMost, hTurns⟩ := hReaches.floor.exists_turns
    rw [hLast]
    refine ⟨turns, hMost, fun turns' result => ⟨hTurns.unique, ?_⟩⟩
    rintro ⟨rfl, rfl⟩
    exact hTurns
  · rintro negative m rfl h
    obtain hInfinite | ⟨_, _, hFinite, hSign⟩ := zero_le_iff.1 h
    · cases hInfinite
    · cases hFinite
      rw [factorial_finite hSign, Magnitude.value, Nat.floor_div_eq_div]

/-- The numbers next to 171 on both sides. -/
theorem factorial_loop_of_limit :
    let below : Magnitude := ⟨0x40655FFFFFFFFFFF, by decide⟩
    let above : Magnitude := ⟨0x4065600000000001, by decide⟩
    zero ≤ finite false below ∧ finite false below ≤ finite false above ∧
      (finite false below).factorial = rangeProduct ⌊below.value⌋₊ ∧
      (finite false below).factorial ≤ (finite false above).factorial ∧
      (finite false above).factorial = infinite false := by
  intro below above
  have hZero : zero ≤ finite false below := (le_iff_of_place? rfl rfl).mpr (by decide)
  have hLe : finite false below ≤ finite false above := (le_iff_of_place? rfl rfl).mpr (by decide)
  have hLimit : ofNat 171 ≤ finite false above :=
    (ofNat_le_finite_iff (by decide)).mpr (by decide +kernel)
  obtain ⟨-, -, hProduct, -, -, hOrder⟩ := factorial_loop (finite false below)
  exact ⟨hZero, hLe, hProduct false below rfl hZero, hOrder _ hZero hLe,
    (factorial_loop (finite false above)).2.2.2.2.1.mpr hLimit⟩

end Binary64

end Calculator
