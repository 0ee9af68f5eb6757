import Calculator.Proofs.TokenBoundary

/-! Texts with a blank between them. A blank takes part in no token, so the scanner reads one text and
then the other, and the error of either one is that of the whole. In the second text only the
positions of errors differ. -/

namespace Calculator

theorem ne_of_isBlank {c d : Char} (h : isBlank c = true) (h' : isBlank d = false) : c ≠ d := by
  rintro rfl
  rw [h] at h'
  cases h'

/-- The error of a text that stands a number of characters later. -/
def LexError.shift (k : ℕ) : LexError → LexError
  | unknownCharacter c position => unknownCharacter c (position + k)
  | invalidNumber numeral position => invalidNumber numeral (position + k)

namespace Token

/-- No letter beyond ASCII stands among the blanks. -/
theorem letterRanges_apart : ∀ range ∈ letterRanges, 0xA0 < range.1 ∧
    (range.2 < 0x1680 ∨ 0x1680 < range.1) ∧ (range.2 < 0x2000 ∨ 0x205F < range.1) ∧
    (range.2 < 0x3000 ∨ 0x3000 < range.1) := by
  decide +kernel

theorem isExtension_of_isBlank {c : Char} (h : isBlank c = true) : isExtension c = false := by
  refine Bool.eq_false_iff.mpr fun hExtension => ?_
  simp only [isBlank, Bool.or_eq_true, Bool.and_eq_true, decide_eq_true_eq, beq_iff_eq] at h
  simp only [isExtension, isWordChar, isLetter, Bool.or_eq_true, Bool.and_eq_true,
    decide_eq_true_eq, beq_iff_eq, List.any_eq_true] at hExtension
  obtain (hDigit | rfl) | ⟨hAlpha | ⟨-, range, hMem, hLow, hHigh⟩, -⟩ := hExtension
  · have := toNat_of_isDigit hDigit
    omega
  · exact absurd h (by decide)
  · have := toNat_of_isAlpha hAlpha
    omega
  · have := letterRanges_apart range hMem
    omega

theorem apart_of_isBlank (s rest : Text) {c : Char} (h : isBlank c = true) :
    Apart s (c :: rest) := by
  apply apart_cons rest (isExtension_of_isBlank h)
  · exact ne_of_isBlank h (by decide)
  · exact ⟨ne_of_isBlank h (by decide), ne_of_isBlank h (by decide)⟩
  · intro _
    exact ne_of_isBlank h (by decide)

/-! ### Positions -/

theorem next_add (position k : ℕ) (c : Char) (rest : Text) :
    next (position + k) c rest = (next position c rest).mapError (·.shift k) := by
  unfold next
  split
  · split
    · rfl
    · rfl
  · split
    · rfl
    · dsimp only
      split
      · rfl
      · rfl

/-- A text that stands later has the same tokens, or the same error at a later position. -/
theorem scanAt_add (position k : ℕ) (s : Text) :
    scanAt (position + k) s = (scanAt position s).mapError (·.shift k) := by
  induction position, s using scanAt.induct with
  | case1 position =>
    rw [scans_nil (position + k), scans_nil position]
    rfl
  | case2 position c rest hBlank ih =>
    rw [scanAt_of_isBlank (position + k) hBlank, scanAt_of_isBlank position hBlank,
      Nat.add_right_comm, ih]
  | case3 position c rest hBlank e hNext =>
    have hLater := next_add position k c rest
    rw [hNext] at hLater
    rw [scanAt_of_next_error hBlank hNext, scanAt_of_next_error hBlank hLater]
    rfl
  | case4 position c rest hBlank t after hNext _ _ _ ih
  | case5 position c rest hBlank t after hNext _ _ _ ih =>
    have hLater := next_add position k c rest
    rw [hNext] at hLater
    rw [scanAt_of_next (position + k) hBlank hLater, scanAt_of_next position hBlank hNext,
      Nat.add_right_comm, ih]
    cases scanAt (position + (rest.length + 1 - after.length)) after with
    | error e => rfl
    | ok ts => rfl

/-! ### Two texts -/

/-- Two texts with a blank between them have the tokens of both. The error of the first text is that of
the whole, and without one so is the error of the second text, behind the first text and the blank. -/
theorem scan_append_blank (s t : Text) {c : Char} (hBlank : isBlank c = true) :
    scan (s ++ c :: t) =
      match scan s, scan t with
      | .error e, _ => .error e
      | .ok _, .error e => .error (e.shift (s.length + 1))
      | .ok ts, .ok us => .ok (ts ++ us) := by
  rw [scan, scanAt_append (apart_of_isBlank s t hBlank), scanAt_of_isBlank _ hBlank, scan, scan,
    Nat.add_assoc, scanAt_add 0 (s.length + 1) t]
  cases scanAt 0 s with
  | error e => rfl
  | ok ts =>
    cases scanAt 0 t with
    | error e => rfl
    | ok us => rfl

/-- A no-break space behind an exponent mark, and a digit that would make an exponent of it. The
second text's error moves by the length of the first one and the blank. -/
theorem scan_append_blank_of_exponent_mark :
    isBlank '\u00A0' = true ∧
      scan ("1e".toList ++ '\u00A0' :: "5".toList) =
        .ok ([.number (.ofNat 1), .constant .e] ++ [.number (.ofNat 5)]) ∧
      scan ("1e".toList ++ '\u00A0' :: "5#".toList) = .error (.unknownCharacter '#' 4) := by
  have hBlank : isBlank '\u00A0' = true := by decide
  have hFirst : scan "1e".toList = .ok [.number (.ofNat 1), .constant .e] := by decide +kernel
  have hSecond : scan "5".toList = .ok [.number (.ofNat 5)] := by decide +kernel
  have hError : scan "5#".toList = .error (.unknownCharacter '#' 1) := by decide +kernel
  refine ⟨hBlank, ?_, ?_⟩
  · rw [scan_append_blank _ _ hBlank, hFirst, hSecond]
  · rw [scan_append_blank _ _ hBlank, hFirst, hError]
    rfl

end Token

end Calculator
