import Calculator.Proofs.RoundedValue

/-! The form of a number's text. A text is a lone zero, or a plain decimal or one digit with a fraction
and an exponent, in neither of which a digit could be left out; only a negative number has a sign. That
a shortest text does not end in a zero is due to its having the fewest digits. -/

namespace Calculator

/-! ### The form -/

/-- The digits of a whole number, with a zero in front only of a lone zero. -/
structure IsWhole (s : Text) : Prop where
  ne_nil : s ≠ []
  isDigit : ∀ c ∈ s, c.isDigit = true
  eq_of_zero : s.head? = some '0' → s = ['0']

/-- At most ten digits after a point, the last of which is not zero. -/
structure IsFraction (s : Text) : Prop where
  ne_nil : s ≠ []
  isDigit : ∀ c ∈ s, c.isDigit = true
  length_le : s.length ≤ 10
  getLast_ne : s.getLast? ≠ some '0'

/-- One digit that is not zero, and a fraction if there is one. -/
inductive IsMantissa : Text → Prop
  | digit {c : Char} : c.isDigit = true → c ≠ '0' → IsMantissa [c]
  | point {c : Char} {fraction : Text} :
      c.isDigit = true → c ≠ '0' → IsFraction fraction → IsMantissa (c :: '.' :: fraction)

/-- A signed exponent outside the range of plain decimals. -/
inductive IsExponent : Text → Prop
  | plus {s : Text} : IsWhole s → 10 ≤ Nat.ofDigitChars 10 s 0 → IsExponent ('e' :: '+' :: s)
  | minus {s : Text} : IsWhole s → 11 ≤ Nat.ofDigitChars 10 s 0 → IsExponent ('e' :: '-' :: s)

/-- The text of a number above zero. -/
inductive IsCanonical : Text → Prop
  | whole {s : Text} : IsWhole s → s ≠ ['0'] → s.length ≤ 10 → IsCanonical s
  | point {s fraction : Text} :
      IsWhole s → s.length ≤ 10 → IsFraction fraction → IsCanonical (s ++ '.' :: fraction)
  | scientific {mantissa exponent : Text} :
      IsMantissa mantissa → IsExponent exponent → IsCanonical (mantissa ++ exponent)

/-! ### Digits -/

theorem digitChar_eq_zero_iff {d : ℕ} (h : d < 10) : Nat.digitChar d = '0' ↔ d = 0 := by
  decide +revert

theorem head?_toDigits_ne {n : ℕ} (h : n ≠ 0) : (Nat.toDigits 10 n).head? ≠ some '0' := by
  induction n using Nat.strong_induction_on with
  | _ n ih =>
    rcases Nat.lt_or_ge n 10 with hDigit | hMore
    · rw [Nat.toDigits_of_lt_base hDigit, List.head?_cons, ne_eq, Option.some.injEq,
        digitChar_eq_zero_iff hDigit]
      exact h
    · rw [Nat.toDigits_of_base_le (by decide) hMore, List.head?_append_of_ne_nil _ Nat.toDigits_ne_nil]
      exact ih (n / 10) (by omega) (by omega)

theorem getLast?_toDigits (n : ℕ) :
    (Nat.toDigits 10 n).getLast? = some (Nat.digitChar (n % 10)) := by
  rcases Nat.lt_or_ge n 10 with hDigit | hMore
  · rw [Nat.toDigits_of_lt_base hDigit, Nat.mod_eq_of_lt hDigit]
    rfl
  · rw [Nat.toDigits_of_base_le (by decide) hMore, List.getLast?_concat]

theorem toDigits_ne_zero {n : ℕ} (h : n ≠ 0) : Nat.toDigits 10 n ≠ ['0'] := by
  intro hZero
  exact head?_toDigits_ne h (by rw [hZero]; rfl)

theorem isWhole_toDigits (n : ℕ) : IsWhole (Nat.toDigits 10 n) where
  ne_nil := Nat.toDigits_ne_nil
  isDigit := fun _ hc => Nat.isDigit_of_mem_toDigits (by decide) (by decide) hc
  eq_of_zero := by
    intro hHead
    obtain rfl : n = 0 := by
      by_contra hNonzero
      exact head?_toDigits_ne hNonzero hHead
    exact Nat.toDigits_zero 10

theorem length_toDigits_le {n : ℕ} (h : n < 10 ^ 10) : (Nat.toDigits 10 n).length ≤ 10 :=
  (Nat.length_toDigits_le_iff (by decide) (by decide)).mpr h

/-- The digits after the point, with zeros in front to fill their number. -/
theorem isFraction_leftpad {n size : ℕ} (hLast : n % 10 ≠ 0) (hFits : n < 10 ^ (size + 1))
    (hSize : size + 1 ≤ 10) : IsFraction ((Nat.toDigits 10 n).leftpad (size + 1) '0') where
  ne_nil := by simp [List.leftpad, Nat.toDigits_ne_nil]
  isDigit := fun _ hc => Numeral.isDigit_of_mem_leftpad hc
  length_le := by rwa [Numeral.length_leftpad_toDigits (Nat.succ_pos size) hFits]
  getLast_ne := by
    rw [List.leftpad, List.getLast?_append_of_ne_nil _ Nat.toDigits_ne_nil, getLast?_toDigits, ne_eq,
      Option.some.injEq, digitChar_eq_zero_iff (Nat.mod_lt n (by decide))]
    exact hLast

theorem isFraction_dropZeros {s : Text} (hDigits : ∀ c ∈ s, c.isDigit = true) (hLength : s.length ≤ 10)
    (hNonempty : Display.dropZeros s ≠ []) : IsFraction (Display.dropZeros s) where
  ne_nil := hNonempty
  isDigit := fun c hc => hDigits c (Numeral.mem_of_mem_dropZeros hc)
  length_le := by
    obtain ⟨k, hZeros⟩ := Numeral.exists_dropZeros_append s
    have := congrArg List.length hZeros
    rw [List.length_append] at this
    omega
  getLast_ne := by
    rw [Display.dropZeros, List.getLast?_reverse]
    intro hHead
    have := List.head?_dropWhile_not (· == '0') s.reverse
    rw [hHead] at this
    cases this

/-! ### Signs -/

namespace Binary64

theorem isNegative_finite {negative : Bool} {m : Magnitude} (hRank : m.rank ≠ 0) :
    (finite negative m).isNegative = negative := by
  cases negative with
  | false => exact isNegative_finite_false m
  | true => exact isNegative_finite_true hRank

theorem isNegative_of_isZero {x : Binary64} (h : x.isZero = true) : x.isNegative = false := by
  cases x with
  | nan signaling => cases h
  | infinite negative => cases h
  | finite negative m =>
    have hRank : m.rank = 0 := beq_iff_eq.mp h
    cases negative with
    | false => exact isNegative_finite_false m
    | true =>
      simp [isNegative, lt, place?, zero, Magnitude.zero, hRank]

end Binary64

/-! ### Plain decimals -/

/-- The plain text of a decimal with few enough digits on both sides of the point and no zero at the
end. -/
theorem isCanonical_plain {d : Decimal} (hLast : d.coefficient % 10 ≠ 0)
    (hPlaces : d.places ≤ 10) (hSize : d.value < 10 ^ 10) : IsCanonical d.plain := by
  obtain ⟨coefficient, exponent⟩ := d
  cases exponent with
  | ofNat e =>
    have hWhole : coefficient * 10 ^ e < 10 ^ 10 := by
      rw [Decimal.value, Int.ofNat_eq_natCast, zpow_natCast] at hSize
      exact_mod_cast hSize
    have hNonzero : coefficient * 10 ^ e ≠ 0 :=
      Nat.mul_ne_zero (fun hZero => hLast (by subst hZero; rfl)) (Nat.pow_pos (by decide)).ne'
    exact .whole (isWhole_toDigits _) (toDigits_ne_zero hNonzero) (length_toDigits_le hWhole)
  | negSucc e =>
    have hPower : 0 < 10 ^ (e + 1) := Nat.pow_pos (by decide)
    have hWhole : coefficient / 10 ^ (e + 1) < 10 ^ 10 := by
      rw [Decimal.value, zpow_negSucc, ← div_eq_mul_inv, div_lt_iff₀ (by positivity)] at hSize
      rw [Nat.div_lt_iff_lt_mul hPower]
      exact_mod_cast hSize
    have hFraction : coefficient % 10 ^ (e + 1) % 10 ≠ 0 := by
      rwa [Nat.mod_mod_of_dvd coefficient (dvd_pow_self 10 (Nat.succ_ne_zero e))]
    exact .point (isWhole_toDigits _) (length_toDigits_le hWhole)
      (isFraction_leftpad hFraction (Nat.mod_lt _ hPower) hPlaces)

namespace Magnitude

theorem le_two_mul_of_readsBack {m : Magnitude} {x : ℕ} (hRank : m.rank ≠ 0)
    (h : m.readsBack x = true) : x ≤ 2 * m.decimalUnits := by
  have hUpper := (readsBack_iff_bounds.mp h).2.1
  have hUnit := decimalUnitsPerUnit_le_decimalUnits hRank
  have hSize : x ≤ 10 ^ 11 * x := by omega
  rcases upperBound_le hSize hUpper with hLe | hLe
  · omega
  · omega

theorem pos_of_readsBack {m : Magnitude} {x : ℕ} (hRank : m.rank ≠ 0)
    (h : m.readsBack x = true) : 0 < x := by
  have hLower := (readsBack_iff_bounds.mp h).1
  rw [lowerBound_eq, Nat.add_mul, ← decimalUnits_eq] at hLower
  have hUnit := decimalUnitsPerUnit_le_decimalUnits hRank
  have hPos := decimalUnitsPerUnit_pos
  omega

/-- The shortest decimal does not end in a zero, without which it would be shorter. -/
theorem coefficient_shortest_mod_ten {m : Magnitude} (hRank : m.rank ≠ 0) :
    m.shortest.coefficient % 10 ≠ 0 := by
  obtain ⟨place, k, hShortest, hReads, hCoarsest⟩ := m.exists_shortestFrom (digitCount m.decimalUnits)
  rw [shortest, if_neg hRank, hShortest]
  intro hZero
  obtain ⟨j, rfl⟩ : 10 ∣ k := Nat.dvd_of_mod_eq_zero hZero
  rw [Nat.mul_comm 10, Nat.mul_assoc, ← pow_succ'] at hReads
  have hBeyond : digitCount m.decimalUnits ≤ place := by
    by_contra hWithin
    have := hCoarsest (place + 1) (by omega) j hReads
    omega
  have hSize := digitCount_le_iff.mp hBeyond
  have hNear := le_two_mul_of_readsBack hRank hReads
  have hStep : 10 ^ (place + 1) ≤ j * 10 ^ (place + 1) :=
    Nat.le_mul_of_pos_left _ (Nat.pos_of_mul_pos_right (pos_of_readsBack hRank hReads))
  rw [pow_succ'] at hStep hNear
  omega

end Magnitude

namespace Display

open Magnitude

theorem value_shortest_lt {m : Magnitude} (h : isScientific m = false) :
    m.shortest.value < 10 ^ 10 := by
  by_contra hLarge
  have hBeyond : (decimalAt beyondPlace 1).nearest? = some plainBelow := by
    rw [nearest?_decimalAt_iff, Nat.one_mul]
    exact readsBack_plainBelow
  have hValue : (decimalAt beyondPlace 1).value = 10 ^ 10 := by
    rw [decimalAt, Decimal.value, show (beyondPlace : ℤ) - 1074 = (10 : ℕ) from rfl, zpow_natCast,
      Nat.cast_one, one_mul]
  rw [not_lt, ← hValue] at hLarge
  have := Decimal.rank_le_of_value_le hBeyond m.nearest?_shortest hLarge
  have := (isScientific_eq_false_iff.mp h).2
  omega

theorem isCanonical_plainText {m : Magnitude} (h : isScientific m = false) :
    IsCanonical (plainText m) := by
  obtain ⟨m', hPlain, hPlaces, hText⟩ := exists_plainText_eq h
  rw [hText]
  exact isCanonical_plain (coefficient_shortest_mod_ten (rank_ne_zero_of_plain hPlain)) hPlaces
    (value_shortest_lt hPlain)

/-! ### Texts with an exponent -/

/-- A value outside the plain range that does not round into it has a first digit beyond the range or
below the last digit in it. -/
theorem exists_roundToDigits_of_scientific {m : Magnitude} (hRank : m.rank ≠ 0)
    (h : isScientific m = true)
    (hRounded : ∀ m', (m.roundToDigits 11).nearest? = some m' → isScientific m' = true) :
    ∃ place k, m.roundToDigits 11 = decimalAt place k ∧ 10 ^ 10 ≤ k ∧ k < 10 ^ 11 ∧
      (place + 11 ≤ lastPlace ∨ beyondPlace ≤ place + 10) := by
  obtain ⟨place, k, hDecimal, hMin, hMax, hFrom, hBelow⟩ := exists_roundToDigits_eq hRank
  refine ⟨place, k, hDecimal, hMin, hMax, ?_⟩
  rcases decimalUnits_of_scientific h with hSmall | hLarge
  · left
    by_contra hPlace
    have hStep : 10 ^ lastPlace ≤ k * 10 ^ place := by
      calc 10 ^ lastPlace ≤ 10 ^ (10 + place) := Nat.pow_le_pow_right (by decide) (by omega)
        _ = 10 ^ 10 * 10 ^ place := pow_add ..
        _ ≤ k * 10 ^ place := Nat.mul_le_mul_right _ hMin
    -- then the rounded value is the step of the last digit, which is in the plain range
    have hEqual := (hBelow lastPlace hSmall).antisymm hStep
    have hScientific : isScientific plainFrom = true := by
      apply hRounded
      rw [hDecimal, nearest?_decimalAt_iff, hEqual]
      exact readsBack_plainFrom
    exact absurd hScientific (by decide)
  · right
    by_contra hPlace
    have hStep : k * 10 ^ place < 10 ^ beyondPlace := by
      calc k * 10 ^ place < 10 ^ 11 * 10 ^ place :=
            Nat.mul_lt_mul_of_pos_right hMax (Nat.pow_pos (by decide))
        _ = 10 ^ (11 + place) := (pow_add ..).symm
        _ ≤ 10 ^ beyondPlace := Nat.pow_le_pow_right (by decide) (by omega)
    exact absurd (hFrom beyondPlace hLarge) (not_le.mpr hStep)

theorem isExponent_exponentText {e : ℤ} (h : 10 ≤ e ∨ e ≤ -11) : IsExponent (exponentText e) := by
  have hDigits : Nat.ofDigitChars 10 (Nat.toDigits 10 e.natAbs) 0 = e.natAbs :=
    Nat.ofDigitChars_ten_toDigits
  unfold exponentText
  rcases h with hLarge | hSmall
  · rw [if_neg (by omega)]
    exact .plus (isWhole_toDigits _) (by omega)
  · rw [if_pos (by omega)]
    exact .minus (isWhole_toDigits _) (by omega)

/-- The text of a decimal of eleven digits with an exponent. -/
theorem isCanonical_scientificText {d : Decimal} (hMin : 10 ^ 10 ≤ d.coefficient)
    (hMax : d.coefficient < 10 ^ 11) (hExponent : 10 ≤ d.exponent + 10 ∨ d.exponent + 10 ≤ -11) :
    IsCanonical (scientificText d) := by
  obtain ⟨first, others, hDigits, hFirst, hOthers⟩ := Numeral.exists_toDigits_eq_cons d.coefficient
  have hLength : others.length = 10 := by
    have hLength (k : ℕ) (hk : 0 < k) := Nat.length_toDigits_le_iff (n := d.coefficient)
      (by decide : 1 < 10) hk
    have hUpper := (hLength 11 (by decide)).mpr hMax
    have hLower := mt (hLength 10 (by decide)).mp (not_lt.mpr hMin)
    rw [hDigits, List.length_cons] at hUpper hLower
    omega
  have hNonzero : first ≠ '0' := by
    rintro rfl
    exact head?_toDigits_ne (by omega) (congrArg List.head? hDigits)
  rw [scientificText, hDigits]
  dsimp only
  rw [hLength]
  refine .scientific ?_ (isExponent_exponentText hExponent)
  split
  · exact .digit hFirst hNonzero
  · rename_i hFraction
    exact .point hFirst hNonzero
      (isFraction_dropZeros hOthers hLength.le fun hNone => hFraction (by rw [hNone]; rfl))

theorem isCanonical_magnitudeText {m : Magnitude} (hRank : m.rank ≠ 0) :
    IsCanonical (magnitudeText m) := by
  cases hScientific : isScientific m with
  | false =>
    rw [magnitudeText_of_plain hScientific]
    exact isCanonical_plainText hScientific
  | true =>
    rcases magnitudeText_cases hScientific with ⟨m', -, hPlain, hText⟩ | ⟨hRounded, hText⟩
    · rw [hText]
      exact isCanonical_plainText hPlain
    · obtain ⟨place, k, hDecimal, hMin, hMax, hPlace⟩ :=
        exists_roundToDigits_of_scientific hRank hScientific hRounded
      rw [hText, hDecimal]
      refine isCanonical_scientificText hMin hMax ?_
      unfold lastPlace beyondPlace at hPlace
      dsimp only [decimalAt]
      omega

/-! ### Numbers with a sign -/

theorem text_of_isZero {x : Binary64} (h : x.isZero = true) : text x = ['0'] := by
  cases x with
  | nan signaling => cases h
  | infinite negative => cases h
  | finite negative m => exact if_pos (beq_iff_eq.mp h)

/-- Only the sign of a number's text depends on the number's sign. -/
theorem exists_text_eq_signed {x : Binary64} (hFinite : x.isFinite = true) (hZero : x.isZero = false) :
    ∃ s, IsCanonical s ∧ s.head? ≠ some '-' ∧ text x = Binary64.signed x.isNegative s ∧
      text (-x) = Binary64.signed (!x.isNegative) s := by
  cases x with
  | nan signaling => cases hFinite
  | infinite negative => cases hFinite
  | finite negative m =>
    have hRank : m.rank ≠ 0 := beq_eq_false_iff_ne.mp hZero
    rw [Binary64.isNegative_finite hRank]
    refine ⟨magnitudeText m, isCanonical_magnitudeText hRank, ?_, text_finite negative hRank,
      text_finite (!negative) hRank⟩
    obtain ⟨c, s, hText, hDigit⟩ := exists_magnitudeText_eq_cons m
    rw [hText, List.head?_cons, ne_eq, Option.some.injEq]
    rintro rfl
    exact absurd hDigit (by decide)

/-- The text of a finite number is a lone zero or canonical behind its sign. Only negative numbers have
a sign, and the opposite of a number differs in the sign alone. -/
theorem canonical_text {x : Binary64} (h : x.isFinite = true) :
    (x.isZero = true → text x = ['0']) ∧
    (x.isZero = false → ∃ s, IsCanonical s ∧ text x = Binary64.signed x.isNegative s ∧
      text (-x) = Binary64.signed (!x.isNegative) s) ∧
    ((text x).head? = some '-' ↔ x.isNegative = true) := by
  cases hZero : x.isZero with
  | true =>
    have hText := text_of_isZero hZero
    refine ⟨fun _ => hText, fun hOther => (by cases hOther), ?_⟩
    rw [hText, Binary64.isNegative_of_isZero hZero]
    decide
  | false =>
    obtain ⟨s, hCanonical, hHead, hText, hOpposite⟩ := exists_text_eq_signed h hZero
    refine ⟨fun hOther => (by cases hOther), fun _ => ⟨s, hCanonical, hText, hOpposite⟩, ?_⟩
    rw [hText]
    cases hNegative : x.isNegative with
    | false => exact iff_of_false hHead Bool.false_ne_true
    | true => exact iff_of_true rfl rfl

/-- The number `-1e10`, the first one below zero that is written with an exponent. -/
theorem canonical_text_of_beyond :
    let x : Binary64 := .finite true plainBelow
    x.isFinite = true ∧ x.isZero = false ∧ x.isNegative = true ∧
      ∃ s, IsCanonical s ∧ text x = Binary64.signed x.isNegative s ∧
        text (-x) = Binary64.signed (!x.isNegative) s := by
  intro x
  have hZero : x.isZero = false := by decide
  exact ⟨rfl, hZero, by decide, (canonical_text (x := x) rfl).2.1 hZero⟩

end Display

end Calculator
