import Calculator.Outcome
import Calculator.Proofs.Scanning
import Calculator.Proofs.SignificantDigits

/-! The text of a computed value evaluates to a number of the same text. A magnitude that is written
plainly is written as a magnitude whose shortest text has few enough digits; one that is written with
an exponent rounds to eleven digits, and so does the magnitude that these read as, to the same
ones. -/

namespace Calculator

namespace Binary64

theorem isNegative_finite_false (m : Magnitude) : (finite false m).isNegative = false := by
  simp [isNegative, lt, place?, zero, Magnitude.zero]

theorem isNegative_finite_true {m : Magnitude} (h : m.rank ≠ 0) :
    (finite true m).isNegative = true := by
  have hRank : -(m.rank : ℤ) < 0 := by omega
  simpa [isNegative, lt, place?, zero, Magnitude.zero] using hRank

end Binary64

namespace Display

open Magnitude

/-! ### The plain range -/

theorem isScientific_eq_false_iff {m : Magnitude} :
    isScientific m = false ↔ plainFrom.rank ≤ m.rank ∧ m.rank < plainBelow.rank := by
  simp only [isScientific, Bool.or_eq_false_iff, decide_eq_false_iff_not]
  omega

theorem rank_ne_zero_of_plain {m : Magnitude} (h : isScientific m = false) : m.rank ≠ 0 := by
  have hFrom : plainFrom.rank ≤ m.rank := (isScientific_eq_false_iff.mp h).1
  have hPos : 0 < plainFrom.rank := by decide
  omega

/-- The place, in decimal units, of the last digit after the point. -/
def lastPlace : ℕ := 1064

theorem roundToPlaces_eq (m : Magnitude) :
    m.roundToPlaces fractionDigits =
      decimalAt lastPlace (roundHalfEven m.decimalUnits (10 ^ lastPlace)) := by
  unfold roundToPlaces
  rw [show 1074 - fractionDigits = lastPlace from rfl, roundAt]

/-- The ends of the plain range, against a step of the last digit. -/
theorem plain_bounds :
    plainFrom.readsBack (10 ^ lastPlace) = true ∧ 10 ^ lastPlace ≤ plainFrom.decimalUnits ∧
      2 * (unitsOfRank (plainBelow.rank - 1) * decimalUnitsPerUnit) + 10 ^ lastPlace <
        plainBelow.lowerBound := by
  decide +kernel

/-- The least magnitude written plainly is the one that one step of the last digit reads as. -/
theorem readsBack_plainFrom : plainFrom.readsBack (10 ^ lastPlace) = true :=
  plain_bounds.1

theorem ten_pow_le_of_plain {m : Magnitude} (h : plainFrom.rank ≤ m.rank) :
    10 ^ lastPlace ≤ m.decimalUnits :=
  plain_bounds.2.1.trans (decimalUnits_le_of_rank_le h)

/-- Below the plain range's end the magnitudes are too far apart to be rounded up to it. -/
theorem two_mul_add_lt_lowerBound {m : Magnitude} (h : m.rank < plainBelow.rank) :
    2 * m.decimalUnits + 10 ^ lastPlace < plainBelow.lowerBound := by
  have hLast : m.decimalUnits ≤ unitsOfRank (plainBelow.rank - 1) * decimalUnitsPerUnit := by
    rw [decimalUnits_eq]
    exact Nat.mul_le_mul_right _ (unitsOfRank_strictMono.monotone (by omega))
  have hGap := plain_bounds.2.2
  omega

/-- A value in the plain range, rounded to the most digits after the point, reads as a magnitude in
the plain range, whose shortest text has no more digits after the point. -/
theorem exists_nearest?_roundToPlaces {m : Magnitude} (h : isScientific m = false) :
    ∃ m', (m.roundToPlaces fractionDigits).nearest? = some m' ∧ isScientific m' = false ∧
      m'.shortest.places ≤ fractionDigits := by
  obtain ⟨hFrom, hBelow⟩ := isScientific_eq_false_iff.mp h
  have hStep : 0 < 10 ^ lastPlace := Nat.pow_pos (by decide)
  obtain ⟨hLower, hUpper, -⟩ := roundHalfEven_bounds m.decimalUnits hStep
  have hSize := ten_pow_le_of_plain hFrom
  have hEnd := two_mul_add_lt_lowerBound hBelow
  rw [roundToPlaces_eq]
  generalize roundHalfEven m.decimalUnits (10 ^ lastPlace) = k at *
  have hOne : 1 ≤ k := le_of_two_mul_le hStep (by omega)
  obtain ⟨m', hReads, hFrom', hBelow'⟩ := exists_readsBack readsBack_plainFrom
    (Nat.le_mul_of_pos_left (10 ^ lastPlace) hOne) (hLower.trans_lt hEnd)
  have hPlain : isScientific m' = false := isScientific_eq_false_iff.mpr ⟨hFrom', hBelow'⟩
  exact ⟨m', nearest?_decimalAt_iff.mpr hReads, hPlain,
    places_shortest_le (rank_ne_zero_of_plain hPlain) (ten_pow_le_of_plain hFrom') hReads⟩

theorem plainText_of_places_le {m : Magnitude} (h : m.shortest.places ≤ fractionDigits) :
    plainText m = m.shortest.plain := if_pos h

theorem plainText_of_nearest? {m m' : Magnitude} (h : ¬m.shortest.places ≤ fractionDigits)
    (hNearest : (m.roundToPlaces fractionDigits).nearest? = some m') :
    plainText m = m'.shortest.plain := by
  rw [plainText, if_neg h]
  dsimp only
  rw [hNearest]

/-- A plain text is the shortest text of a magnitude in the plain range, with few enough digits after
the point. -/
theorem exists_plainText_eq {m : Magnitude} (h : isScientific m = false) :
    ∃ m', isScientific m' = false ∧ m'.shortest.places ≤ fractionDigits ∧
      plainText m = m'.shortest.plain := by
  by_cases hPlaces : m.shortest.places ≤ fractionDigits
  · exact ⟨m, h, hPlaces, plainText_of_places_le hPlaces⟩
  · obtain ⟨m', hNearest, hPlain, hPlaces'⟩ := exists_nearest?_roundToPlaces h
    exact ⟨m', hPlain, hPlaces', plainText_of_nearest? hPlaces hNearest⟩

/-! ### All magnitudes -/

theorem magnitudeText_of_plain {m : Magnitude} (h : isScientific m = false) :
    magnitudeText m = plainText m := by
  rw [magnitudeText, if_neg (by rw [h]; exact Bool.false_ne_true)]

/-- A magnitude outside the plain range is written like what its rounded value reads as. -/
theorem magnitudeText_of_scientific {m m' : Magnitude} (h : isScientific m = true)
    (hRounded : (m.roundToDigits 11).nearest? = some m') :
    magnitudeText m =
      if isScientific m' then scientificText (m.roundToDigits 11) else plainText m' := by
  rw [magnitudeText, if_pos h, show fractionDigits + 1 = 11 from rfl]
  dsimp only
  rw [hRounded]

/-- A magnitude that does not round into the plain range is written with an exponent. -/
theorem magnitudeText_eq_scientificText {m : Magnitude} (h : isScientific m = true)
    (hRounded : ∀ m', (m.roundToDigits 11).nearest? = some m' → isScientific m' = true) :
    magnitudeText m = scientificText (m.roundToDigits 11) := by
  cases hNearest : (m.roundToDigits 11).nearest? with
  | some m' => rw [magnitudeText_of_scientific h hNearest, if_pos (hRounded m' hNearest)]
  | none =>
    rw [magnitudeText, if_pos h, show fractionDigits + 1 = 11 from rfl]
    dsimp only
    rw [hNearest]

theorem magnitudeText_cases {m : Magnitude} (h : isScientific m = true) :
    (∃ m', (m.roundToDigits 11).nearest? = some m' ∧ isScientific m' = false ∧
      magnitudeText m = plainText m') ∨
    ((∀ m', (m.roundToDigits 11).nearest? = some m' → isScientific m' = true) ∧
      magnitudeText m = scientificText (m.roundToDigits 11)) := by
  by_cases hPlain : ∃ m', (m.roundToDigits 11).nearest? = some m' ∧ isScientific m' = false
  · obtain ⟨m', hNearest, hPlain⟩ := hPlain
    refine .inl ⟨m', hNearest, hPlain, ?_⟩
    rw [magnitudeText_of_scientific h hNearest, hPlain, if_neg Bool.false_ne_true]
  · have hRounded (m' : Magnitude) (hNearest : (m.roundToDigits 11).nearest? = some m') :
        isScientific m' = true := by
      by_contra hOther
      exact hPlain ⟨m', hNearest, Bool.eq_false_of_not_eq_true hOther⟩
    exact .inr ⟨hRounded, magnitudeText_eq_scientificText h hRounded⟩

theorem exists_plainText_eq_plain (m : Magnitude) : ∃ d : Decimal, plainText m = d.plain := by
  unfold plainText
  split
  · exact ⟨_, rfl⟩
  · dsimp only
    split
    · exact ⟨_, rfl⟩
    · exact ⟨_, rfl⟩

/-- The text of a magnitude is a plain text of a decimal or one with an exponent. -/
theorem exists_magnitudeText_eq (m : Magnitude) :
    ∃ d : Decimal, magnitudeText m = d.plain ∨ magnitudeText m = scientificText d := by
  unfold magnitudeText
  split
  · dsimp only
    split
    · split
      · exact ⟨_, .inr rfl⟩
      · rename_i m' _ _
        obtain ⟨d, hText⟩ := exists_plainText_eq_plain m'
        exact ⟨d, .inl hText⟩
    · exact ⟨_, .inr rfl⟩
  · obtain ⟨d, hText⟩ := exists_plainText_eq_plain m
    exact ⟨d, .inl hText⟩

/-- The text of a magnitude starts with a digit. -/
theorem exists_magnitudeText_eq_cons (m : Magnitude) :
    ∃ c s, magnitudeText m = c :: s ∧ c.isDigit = true := by
  obtain ⟨d, hPlain | hScientific⟩ := exists_magnitudeText_eq m
  · rw [hPlain]
    exact Numeral.exists_plain_eq_cons d
  · rw [hScientific]
    exact Numeral.exists_scientificText_eq_cons d

open Token in
/-- A plain text is a numeral that reads as a magnitude of the same text. -/
theorem exists_isNumeral_plainText {m : Magnitude} (h : isScientific m = false) :
    ∃ v, IsNumeral (plainText m) (.finite false v) ∧ v.rank ≠ 0 ∧
      magnitudeText v = plainText m := by
  obtain ⟨v, hPlain, hPlaces, hText⟩ := exists_plainText_eq h
  have hNumeral := isNumeral_shortest v
  have hSame : magnitudeText v = plainText m := by
    rw [magnitudeText_of_plain hPlain, plainText_of_places_le hPlaces, hText]
  rw [← hText] at hNumeral
  exact ⟨v, hNumeral, rank_ne_zero_of_plain hPlain, hSame⟩

open Token in
/-- The text of a magnitude is a numeral that reads as a magnitude of the same text. -/
theorem exists_isNumeral_magnitudeText {m m' : Magnitude} (hRank : m.rank ≠ 0)
    (hRounded : (m.roundToDigits 11).nearest? = some m') :
    ∃ v, IsNumeral (magnitudeText m) (.finite false v) ∧ v.rank ≠ 0 ∧
      magnitudeText v = magnitudeText m := by
  cases hScientific : isScientific m with
  | false =>
    rw [magnitudeText_of_plain hScientific]
    exact exists_isNumeral_plainText hScientific
  | true =>
    rw [magnitudeText_of_scientific hScientific hRounded]
    cases hScientific' : isScientific m' with
    | false =>
      rw [if_neg Bool.false_ne_true]
      exact exists_isNumeral_plainText hScientific'
    | true =>
      rw [if_pos rfl]
      obtain ⟨hRank', hSame⟩ := roundToDigits_of_nearest? hRank hRounded
      have hNumeral := isNumeral_scientificText (m.roundToDigits 11)
      rw [Decimal.toBinary64_of_nearest? false hRounded] at hNumeral
      have hRounded' : (m'.roundToDigits 11).nearest? = some m' := by rw [hSame, hRounded]
      have hText := magnitudeText_of_scientific hScientific' hRounded'
      rw [hScientific', if_pos rfl, hSame] at hText
      exact ⟨m', hNumeral, hRank', hText⟩

end Display

theorem evalText_of_parse (angle : Angle) {s : Text} {ts : List Token} {e : Expr}
    (hScan : Token.scan s = .ok ts) (hParse : Expr.parse ts = .ok e) :
    evalText angle s = (e.eval angle).mapError .domain := by
  rw [evalText, parseText, hScan]
  simp only [Except.mapError, bind, Except.bind, hParse]

theorem evalText_of_scan_error (angle : Angle) {s : Text} {fault : LexError}
    (hScan : Token.scan s = .error fault) : evalText angle s = .error (.lex fault) := by
  rw [evalText, parseText, hScan]
  rfl

theorem evalText_of_parse_error (angle : Angle) {s : Text} {ts : List Token} {fault : ParseError}
    (hScan : Token.scan s = .ok ts) (hParse : Expr.parse ts = .error fault) :
    evalText angle s = .error (.parse fault) := by
  rw [evalText, parseText, hScan]
  simp only [Except.mapError, bind, Except.bind, hParse]

theorem evalText_eq_ok_iff {angle : Angle} {s : Text} {v : Binary64} :
    evalText angle s = .ok v ↔
      ∃ ts e, Token.scan s = .ok ts ∧ Expr.parse ts = .ok e ∧ e.eval angle = .ok v := by
  constructor
  · intro h
    cases hScan : Token.scan s with
    | error fault =>
      rw [evalText_of_scan_error angle hScan] at h
      cases h
    | ok ts =>
      cases hParse : Expr.parse ts with
      | error fault =>
        rw [evalText_of_parse_error angle hScan hParse] at h
        cases h
      | ok e =>
        rw [evalText_of_parse angle hScan hParse] at h
        cases hEval : e.eval angle with
        | error fault =>
          rw [hEval] at h
          cases h
        | ok x =>
          rw [hEval] at h
          cases h
          exact ⟨ts, e, rfl, hParse, hEval⟩
  · rintro ⟨ts, e, hScan, hParse, hEval⟩
    rw [evalText_of_parse angle hScan hParse, hEval]
    rfl

theorem value?_ofResult (result : Except Failure Binary64) :
    (Outcome.ofResult result).value? = result.toOption.filter Binary64.isFinite := by
  unfold Outcome.ofResult
  split
  · rename_i x
    rw [Except.toOption, Option.filter_some]
    split
    · rfl
    · rfl
  · rfl
  · rfl
  · rfl

theorem evaluate_eq_value_iff {angle : Angle} {s : Text} {v : Binary64} :
    evaluate angle s = .value v ↔ evalText angle s = .ok v ∧ v.isFinite = true := by
  rw [← Outcome.value?_eq_some_iff, evaluate, value?_ofResult, Option.filter_eq_some_iff]
  cases evalText angle s with
  | error fault => simp [Except.toOption]
  | ok x => simp [Except.toOption]

open Token in
theorem evalText_numeral (angle : Angle) {s : Text} {x : Binary64} (h : IsNumeral s x) :
    evalText angle s = .ok x :=
  evalText_of_parse angle (e := .number x) (h.alone 0) rfl

open Token in
theorem evalText_minus (angle : Angle) {s : Text} {x : Binary64} (h : IsNumeral s x) :
    evalText angle ('-' :: s) = .ok (-x) :=
  evalText_of_parse angle (e := .neg (.number x)) (h.alone.minus 0) rfl

open Token in
theorem evalText_signed (angle : Angle) (negative : Bool) {s : Text} {m : Magnitude}
    (h : IsNumeral s (.finite false m)) :
    evalText angle (Binary64.signed negative s) = .ok (.finite negative m) := by
  cases negative with
  | false => exact evalText_numeral angle h
  | true => exact evalText_minus angle h

namespace Display

theorem text_finite (negative : Bool) {m : Magnitude} (hRank : m.rank ≠ 0) :
    text (.finite negative m) = Binary64.signed negative (magnitudeText m) := if_neg hRank

open Token in
theorem isNumeral_zero : IsNumeral ['0'] .zero := isNumeral_plain ⟨0, 0⟩

/-- The text of a number that is not zero, whose value rounded to eleven digits reads as a
magnitude, evaluates to a number of the same text. -/
theorem exists_evalText_text (angle : Angle) (negative : Bool) {m m' : Magnitude}
    (hRank : m.rank ≠ 0) (hRounded : (m.roundToDigits 11).nearest? = some m') :
    ∃ v, evalText angle (text (.finite negative m)) = .ok (.finite negative v) ∧
      text (.finite negative v) = text (.finite negative m) := by
  obtain ⟨v, hNumeral, hRank', hSame⟩ := exists_isNumeral_magnitudeText hRank hRounded
  refine ⟨v, ?_, ?_⟩
  · rw [text_finite negative hRank]
    exact evalText_signed angle negative hNumeral
  · rw [text_finite negative hRank, text_finite negative hRank', hSame]

theorem isFinite_toBinary64_iff {negative : Bool} {d : Decimal} :
    (d.toBinary64 negative).isFinite = true ↔ ∃ m, d.nearest? = some m := by
  unfold Decimal.toBinary64
  cases d.nearest? with
  | none => simp [Binary64.isFinite]
  | some m => simp [Binary64.isFinite]

/-- The text of a finite number whose value rounded to eleven digits still reads as a finite number
evaluates to a finite number, and that number has the same text. The rounded value reads so for all
magnitudes below `1.79769313485e308`. -/
theorem text_of_evalText_text (angle : Angle) (negative : Bool) (m : Magnitude) :
    (((m.roundToDigits 11).toBinary64 negative).isFinite = true →
      ∃ v, evalText angle (text (.finite negative m)) = .ok v ∧ v.isFinite = true ∧
        text v = text (.finite negative m)) ∧
    (m.decimalUnits < 179769313485 * 10 ^ 1371 →
      ((m.roundToDigits 11).toBinary64 negative).isFinite = true) := by
  constructor
  · intro hFinite
    by_cases hRank : m.rank = 0
    · have hText : text (.finite negative m) = ['0'] := if_pos hRank
      rw [hText]
      exact ⟨.zero, evalText_signed angle false isNumeral_zero, rfl, rfl⟩
    · obtain ⟨m', hRounded⟩ := isFinite_toBinary64_iff.mp hFinite
      obtain ⟨v, hEval, hSame⟩ := exists_evalText_text angle negative hRank hRounded
      exact ⟨.finite negative v, hEval, rfl, hSame⟩
  · intro hSize
    rw [show 1371 = Magnitude.topPlace from rfl] at hSize
    exact isFinite_toBinary64_iff.mpr (Magnitude.exists_nearest?_roundToDigits hSize)

/-- The text of `-π`, which is shortened to ten digits after the point. -/
theorem text_of_evalText_text_neg_pi :
    ∃ v, evalText .degrees (text (-Binary64.pi)) = .ok v ∧ v.isFinite = true ∧
      text v = text (-Binary64.pi) := by
  obtain ⟨hStable, hFinite⟩ := text_of_evalText_text .degrees true ⟨0x400921FB54442D18, by decide⟩
  exact hStable (hFinite (by decide +kernel))

end Display

end Calculator
