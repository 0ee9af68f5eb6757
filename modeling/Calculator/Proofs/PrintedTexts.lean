import Calculator.Outcome
import Calculator.Proofs.DisplayText
import Calculator.Proofs.ErrorPosition
import Calculator.Proofs.StoredSettings

/-! The texts that are printed of values and errors fit on a line. The text of a number has no
blanks at all, and a message has no line feed, since the scanner skips blanks wherever it would name
a character. -/

namespace Calculator

variable {c : Char} {s : Text}

theorem notMem_of_isBlank (h : ∀ c ∈ s, isBlank c = false) : '\n' ∉ s := by
  intro hMem
  exact absurd (h '\n' hMem) (by decide)

theorem isBlank_of_mem_of_all (hAll : s.all (fun c => !isBlank c) = true) (h : c ∈ s) :
    isBlank c = false := by
  simpa using List.all_eq_true.mp hAll c h

/-! ### Numbers -/

theorem Binary64.isBlank_of_mem_signed {negative : Bool} (hText : ∀ c ∈ s, isBlank c = false)
    (h : c ∈ signed negative s) : isBlank c = false := by
  cases negative with
  | false => exact hText c h
  | true =>
    rcases List.mem_cons.mp h with rfl | hMem
    · decide
    · exact hText c hMem

theorem Binary64.isBlank_of_mem_raw {x : Binary64} (h : c ∈ x.raw) : isBlank c = false := by
  cases x with
  | nan signaling => exact isBlank_of_mem_of_all (by decide : "NaN".toList.all _ = true) h
  | infinite negative =>
    exact isBlank_of_mem_signed (fun _ => isBlank_of_mem_of_all (by decide)) h
  | finite negative m => exact Numeral.isBlank_of_mem_signed_plain h

namespace Display

/-- Whether the character may stand in the text of a finite number. -/
def isTextChar (c : Char) : Bool := Numeral.isPart c || Numeral.isExpressionMark c

theorem isTextChar_of_isDigit (h : c.isDigit = true) : isTextChar c = true := by
  rw [isTextChar, Numeral.isPart_of_isDigit c h, Bool.true_or]

theorem isBlank_of_isTextChar (h : isTextChar c = true) : isBlank c = false := by
  simp only [isTextChar, Numeral.isPart, Numeral.isExpressionMark, Bool.or_eq_true, beq_iff_eq] at h
  obtain (((hDigit | rfl) | rfl) | rfl) | rfl := h
  · exact Token.isBlank_of_isDigit hDigit
  · decide
  · decide
  · decide
  · decide

theorem isTextChar_of_mem_signed {negative : Bool} (hText : ∀ c ∈ s, isTextChar c = true)
    (h : c ∈ Binary64.signed negative s) : isTextChar c = true := by
  cases negative with
  | false => exact hText c h
  | true =>
    rcases List.mem_cons.mp h with rfl | hMem
    · decide
    · exact hText c hMem

theorem isTextChar_of_mem_plain {d : Decimal} (h : c ∈ d.plain) : isTextChar c = true := by
  rcases Numeral.isDigit_or_eq_point_of_mem_plain h with hDigit | rfl
  · exact isTextChar_of_isDigit hDigit
  · decide

theorem isTextChar_of_mem_exponentText {e : ℤ} (h : c ∈ exponentText e) : isTextChar c = true := by
  rw [exponentText, List.mem_cons, List.mem_cons] at h
  rcases h with rfl | rfl | hDigits
  · decide
  · split
    · decide
    · decide
  · exact isTextChar_of_isDigit (Nat.isDigit_of_mem_toDigits (by decide) (by decide) hDigits)

theorem isTextChar_of_mem_scientificText {d : Decimal} (h : c ∈ scientificText d) :
    isTextChar c = true := by
  obtain ⟨first, others, hDigits, hFirst, hOthers⟩ := Numeral.exists_toDigits_eq_cons d.coefficient
  rw [scientificText, hDigits] at h
  rcases List.mem_append.mp h with hMantissa | hExponent
  · split at hMantissa
    · rw [List.mem_singleton.mp hMantissa]
      exact isTextChar_of_isDigit hFirst
    · rw [List.mem_cons, List.mem_cons] at hMantissa
      rcases hMantissa with rfl | rfl | hFraction
      · exact isTextChar_of_isDigit hFirst
      · decide
      · exact isTextChar_of_isDigit (hOthers c (Numeral.mem_of_mem_dropZeros hFraction))
  · exact isTextChar_of_mem_exponentText hExponent

theorem isTextChar_of_mem_text {x : Binary64} (hFinite : x.isFinite = true) (h : c ∈ text x) :
    isTextChar c = true := by
  cases x with
  | nan signaling => cases hFinite
  | infinite negative => cases hFinite
  | finite negative m =>
    rw [text] at h
    split at h
    · rw [List.mem_singleton.mp h]
      decide
    · refine isTextChar_of_mem_signed (fun c hMem => ?_) h
      obtain ⟨d, hPlain | hScientific⟩ := exists_magnitudeText_eq m
      · rw [hPlain] at hMem
        exact isTextChar_of_mem_plain hMem
      · rw [hScientific] at hMem
        exact isTextChar_of_mem_scientificText hMem

theorem isTextChar_of_mem_raw {x : Binary64} (hFinite : x.isFinite = true) (h : c ∈ x.raw) :
    isTextChar c = true := by
  cases x with
  | nan signaling => cases hFinite
  | infinite negative => cases hFinite
  | finite negative m => exact isTextChar_of_mem_signed (fun _ => isTextChar_of_mem_plain) h

theorem isBlank_of_mem_text {x : Binary64} (h : c ∈ text x) : isBlank c = false := by
  cases x with
  | nan signaling => exact isBlank_of_mem_of_all (by decide : "Error".toList.all _ = true) h
  | infinite negative =>
    exact Binary64.isBlank_of_mem_signed (fun _ => isBlank_of_mem_of_all (by decide)) h
  | finite negative m => exact isBlank_of_isTextChar (isTextChar_of_mem_text rfl h)

theorem newline_notMem_text (x : Binary64) : '\n' ∉ text x :=
  notMem_of_isBlank fun _ => isBlank_of_mem_text

/-- The text of a finite number starts with a digit or with a minus. -/
theorem text_ne_error_append {x : Binary64} (h : x.isFinite = true) (rest : Text) :
    text x ≠ "Error".toList ++ rest := by
  cases x with
  | nan signaling => cases h
  | infinite negative => cases h
  | finite negative m =>
    intro hText
    rw [text] at hText
    split at hText
    · cases hText
    · obtain ⟨c, s, hDigits, hFirst⟩ := exists_magnitudeText_eq_cons m
      rw [hDigits] at hText
      cases negative with
      | true => cases hText
      | false =>
        cases hText
        exact absurd hFirst (by decide)

end Display

/-! ### Messages -/

theorem newline_notMem_toDigits (n : ℕ) : '\n' ∉ Nat.toDigits 10 n := by
  intro hMem
  exact absurd (Nat.isDigit_of_mem_toDigits (by decide) (by decide) hMem) (by decide)

theorem Token.newline_notMem_quoted (t : Token) : '\n' ∉ t.quoted := by
  have hQuoted {body : Text} (hBody : '\n' ∉ body) : '\n' ∉ '\'' :: body ++ ['\''] := by
    simpa using hBody
  apply hQuoted
  cases t with
  | number x => exact notMem_of_isBlank fun _ => Binary64.isBlank_of_mem_raw
  | operator op => cases op <;> decide
  | function f => cases f <;> decide
  | bareFunction f => cases f <;> decide
  | constant c => cases c <;> decide
  | openParen => decide
  | closeParen => decide

theorem SyntaxFault.newline_notMem_message (fault : SyntaxFault) : '\n' ∉ fault.message := by
  cases fault with
  | tooDeep => decide
  | bareFunction f => cases f <;> decide
  | unmatchedClose => decide
  | misplacedOperator op => cases op <;> decide
  | unclosed found => exact List.not_mem_append (by decide) found.newline_notMem_quoted
  | trailing found => exact List.not_mem_append (by decide) found.newline_notMem_quoted

theorem ParseError.newline_notMem_message (e : ParseError) : '\n' ∉ e.message := by
  cases e with
  | incomplete => decide
  | malformed fault => exact List.not_mem_append (by decide) fault.newline_notMem_message

namespace Token

variable {position : ℕ} {rest : Text} {e : LexError}

theorem newline_notMem_message_of_next (hBlank : ¬isBlank c = true)
    (h : next position c rest = .error e) : '\n' ∉ e.message := by
  have hFirst : '\n' ≠ c := by
    rintro rfl
    exact hBlank (by decide)
  have hUnknown : '\n' ∉ (LexError.unknownCharacter c position).message :=
    List.not_mem_append
      (List.not_mem_append (by decide) (List.not_mem_cons_of_ne_of_not_mem hFirst (by decide)))
      (newline_notMem_toDigits position)
  have hInvalid : '\n' ∉ (LexError.invalidNumber ['.'] position).message :=
    List.not_mem_append (by decide) (newline_notMem_toDigits position)
  rcases next_eq_error h with rfl | ⟨rfl, -⟩
  · exact hUnknown
  · exact hInvalid

theorem newline_notMem_message_of_scanAt (h : scanAt position s = .error e) : '\n' ∉ e.message := by
  obtain ⟨front, c, rest, ts, -, -, hBlank, hNext⟩ := exists_readsBefore_of_error h
  exact newline_notMem_message_of_next hBlank hNext

end Token

/-- The reason that is given for a text that is no expression fits on a line. -/
theorem newline_notMem_reason {angle : Angle} {reason : Text}
    (h : evaluate angle s = .malformed reason) : '\n' ∉ reason := by
  unfold evaluate at h
  cases hScan : Token.scan s with
  | error e =>
    rw [evalText_of_scan_error angle hScan] at h
    cases h
    exact Token.newline_notMem_message_of_scanAt hScan
  | ok ts =>
    cases hParse : Expr.parse ts with
    | error e =>
      rw [evalText_of_parse_error angle hScan hParse] at h
      cases e with
      | incomplete => cases h
      | malformed fault =>
        cases h
        exact (ParseError.malformed fault).newline_notMem_message
    | ok tree =>
      rw [evalText_of_parse angle hScan hParse] at h
      cases hValue : tree.eval angle with
      | error e =>
        rw [hValue] at h
        cases h
      | ok x =>
        rw [hValue] at h
        unfold Outcome.ofResult at h
        dsimp only [Except.mapError] at h
        split at h
        · cases h
        · cases h

end Calculator
