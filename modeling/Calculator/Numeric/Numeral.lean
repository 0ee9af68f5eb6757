import Calculator.Numeric.Decimal

/-! Reading decimal numerals: digits with at most one point, at least one digit, and an exponent
part when a mark is followed by digits, with or without a sign. -/

namespace Calculator.Numeral

/-- Reads digits at the front of the text. -/
def readDigits (s : Text) : Text × Text := (s.takeWhile Char.isDigit, s.dropWhile Char.isDigit)

/-- Reads the digits after a point, if the text starts with one. -/
def readFraction : Text → Text × Text
  | '.' :: rest => readDigits rest
  | s => ([], s)

/-- Reads a sign, which is negative when it is a minus. -/
def readSign : Text → Bool × Text
  | '-' :: rest => (true, rest)
  | '+' :: rest => (false, rest)
  | s => (false, s)

/-- Reads an exponent part: a mark, an optional sign and digits. A mark without digits belongs to
what follows the numeral. -/
def readExponent (isMark : Char → Bool) (s : Text) : Int × Text :=
  match s with
  | [] => (0, [])
  | c :: afterMark =>
    if isMark c then
      let (negative, afterSign) := readSign afterMark
      let (digits, rest) := readDigits afterSign
      if digits.isEmpty then (0, s)
      else
        let size : Nat := Nat.ofDigitChars 10 digits 0
        (if negative then -(size : Int) else size, rest)
    else (0, s)

/-- Reads a numeral at the front of the text, and what follows it. -/
def read? (isMark : Char → Bool) (s : Text) : Option (Decimal × Text) :=
  let (whole, afterWhole) := readDigits s
  let (fraction, afterFraction) := readFraction afterWhole
  if whole.isEmpty && fraction.isEmpty then none
  else
    let (exponent, rest) := readExponent isMark afterFraction
    some (⟨Nat.ofDigitChars 10 (whole ++ fraction) 0, exponent - fraction.length⟩, rest)

def isExpressionMark (c : Char) : Bool := c == 'e'

/-- The exponent marks of stored numbers. -/
def isStoredMark (c : Char) : Bool := c == 'e' || c == 'E'

/-- The number that a whole text spells: an optional sign and a numeral. -/
def value? (s : Text) : Option Binary64 :=
  let (negative, unsigned) := readSign s
  match read? isStoredMark unsigned with
  | some (d, []) => some (d.toBinary64 negative)
  | _ => none

theorem readDigits_append (s : Text) : (readDigits s).1 ++ (readDigits s).2 = s :=
  List.takeWhile_append_dropWhile

theorem length_readDigits (s : Text) :
    (readDigits s).1.length + (readDigits s).2.length = s.length := by
  rw [← List.length_append, readDigits_append]

theorem length_readSign_le (s : Text) : (readSign s).2.length ≤ s.length := by
  unfold readSign
  split <;> simp

theorem length_readExponent_le (isMark : Char → Bool) (s : Text) :
    (readExponent isMark s).2.length ≤ s.length := by
  cases s with
  | nil => simp [readExponent]
  | cons c afterMark =>
    have hSign := length_readSign_le afterMark
    have hDigits := length_readDigits (readSign afterMark).2
    by_cases hMark : isMark c
    · by_cases hNone : (readDigits (readSign afterMark).2).1.isEmpty
      · simp [readExponent, hMark, hNone]
      · simp only [readExponent, hMark, hNone, if_true, Bool.false_eq_true, if_false,
          List.length_cons]
        omega
    · simp [readExponent, hMark]

/-- A fraction takes up more than its digits, unless there is none. -/
theorem length_readFraction (s : Text) :
    (readFraction s).2.length ≤ s.length ∧
      ((readFraction s).1 ≠ [] → (readFraction s).2.length < s.length) := by
  unfold readFraction
  split
  · rename_i rest
    have := length_readDigits rest
    simp only [List.length_cons]
    omega
  · simp

/-- What is left after a numeral is shorter than the text. -/
theorem length_lt_of_read? {isMark : Char → Bool} {s rest : Text} {d : Decimal}
    (h : read? isMark s = some (d, rest)) : rest.length < s.length := by
  have hWhole := length_readDigits s
  have hFraction := length_readFraction (readDigits s).2
  have hExponent := length_readExponent_le isMark (readFraction (readDigits s).2).2
  by_cases hNone : (readDigits s).1.isEmpty && (readFraction (readDigits s).2).1.isEmpty
  · simp [read?, hNone] at h
  · simp only [read?, hNone, Bool.false_eq_true, if_false, Option.some.injEq, Prod.mk.injEq] at h
    obtain ⟨-, rfl⟩ := h
    by_cases hEmpty : (readDigits s).1 = []
    · have : (readFraction (readDigits s).2).1 ≠ [] := by
        intro hf
        simp [hEmpty, hf] at hNone
      have := hFraction.2 this
      omega
    · have := List.length_pos_iff.mpr hEmpty
      omega

end Calculator.Numeral
