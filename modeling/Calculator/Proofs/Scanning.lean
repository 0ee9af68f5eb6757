import Calculator.Key
import Calculator.Proofs.NumeralText
import Calculator.Proofs.Shortest
import Calculator.Token.Lexer

/-! Splitting text into tokens, piece by piece: what each kind of token looks like in front of a
text whose tokens are known. A numeral and a word need a text behind them that does not extend them.
-/

namespace Calculator.Token

/-- The text has the tokens, at whatever position it stands. -/
def Scans (s : Text) (ts : List Token) : Prop := ∀ position, scanAt position s = .ok ts

def isExtension (c : Char) : Bool := c.isDigit || c == '.' || isWordChar c

theorem isExtension_of_isExpressionMark (c : Char) (h : Numeral.isExpressionMark c = true) :
    isExtension c = true := by
  obtain rfl : c = 'e' := by simpa [Numeral.isExpressionMark] using h
  decide

variable {position : ℕ} {rest after : Text} {ts : List Token} {t : Token} {c : Char}

theorem toNat_of_isDigit (h : c.isDigit = true) : 48 ≤ c.toNat ∧ c.toNat ≤ 57 :=
  Char.isDigit_iff_toNat.mp h

theorem isBlank_of_isDigit (h : c.isDigit = true) : isBlank c = false := by
  have hRange := toNat_of_isDigit h
  simp only [isBlank, Bool.or_eq_false_iff, Bool.and_eq_false_iff, decide_eq_false_iff_not,
    beq_eq_false_iff_ne]
  omega

theorem toNat_of_isAlpha (h : c.isAlpha = true) : 65 ≤ c.toNat ∧ c.toNat ≤ 122 := by
  delta Char.isAlpha Char.isUpper Char.isLower at h
  simp only [Bool.or_eq_true, Bool.and_eq_true, decide_eq_true_eq, ge_iff_le,
    UInt32.le_iff_toNat_le] at h
  rcases h with hUpper | hLower
  · exact ⟨hUpper.1, Nat.le_trans hUpper.2 (by decide)⟩
  · exact ⟨Nat.le_trans (by decide) hLower.1, hLower.2⟩

theorem not_numeral_of_isLetter (h : isLetter c = true) : (c.isDigit || c == '.') = false := by
  have hCode : 65 ≤ c.toNat := by
    rw [isLetter, Bool.or_eq_true, Bool.and_eq_true, decide_eq_true_eq] at h
    rcases h with hAlpha | hTable
    · exact (toNat_of_isAlpha hAlpha).1
    · exact Nat.le_trans (by decide) hTable.1
  rw [Bool.or_eq_false_iff]
  constructor
  · cases hDigit : c.isDigit with
    | false => rfl
    | true =>
      have := toNat_of_isDigit hDigit
      omega
  · refine beq_false_of_ne ?_
    rintro rfl
    exact absurd hCode (by decide)

/-! ### The token at the front -/

/-- The text of a first character and a rest starts with a token, and `after` follows it. The first
character decides what kind of token is read. -/
inductive Starts (c : Char) (rest : Text) : Token → Text → Prop
  | number {d : Decimal} {after : Text} : Key.isDigitOrPoint c = true →
      Numeral.read? Numeral.isExpressionMark (c :: rest) = some (d, after) →
      Starts c rest (.number (d.toBinary64 false)) after
  | pi : c = 'π' → Starts c rest (.constant .pi) rest
  | word {t : Token} {after : Text} : isWordChar c = true →
      ofWord? (c :: rest.takeWhile isWordChar) (rest.dropWhile isWordChar) = some (t, after) →
      Starts c rest t after
  | sign {t : Token} {after : Text} : isExtension c = false → c ≠ 'π' →
      ofSign? c rest = some (t, after) → Starts c rest t after

theorem next_eq_ok_iff : next position c rest = .ok (t, after) ↔ Starts c rest t after := by
  constructor
  · intro h
    unfold next at h
    split at h
    · rename_i hNumeral
      split at h
      · rename_i hRead
        cases h
        exact .number hNumeral hRead
      · cases h
    · rename_i hNumeral
      split at h
      · rename_i hPi
        cases h
        exact .pi (beq_iff_eq.mp hPi)
      · rename_i hPi
        dsimp only at h
        split at h
        · rename_i hFound
          cases h
          split at hFound
          · rename_i hLetter
            exact .word (by simp_all [isWordChar]) hFound
          · rename_i hLetter
            exact .sign (by simp_all [isExtension, isWordChar]) (by simpa using hPi) hFound
        · cases h
  · intro h
    cases h with
    | number hNumeral hRead =>
      have hNumeral : (c.isDigit || c == '.') = true := hNumeral
      simp only [next, hNumeral, if_true, hRead]
    | pi hPi =>
      subst hPi
      rfl
    | word hFirst hFound =>
      rw [isWordChar, Bool.and_eq_true, bne_iff_ne] at hFirst
      obtain ⟨hLetter, hPi⟩ := hFirst
      simp only [next, not_numeral_of_isLetter hLetter, beq_false_of_ne hPi, Bool.false_eq_true,
        if_false, hLetter, if_true, hFound]
    | sign hOther hPi hFound =>
      have hLetter : isLetter c = false := by simp_all [isExtension, isWordChar]
      rw [isExtension, Bool.or_eq_false_iff] at hOther
      simp [next, hOther.1, hPi, hLetter, hFound]

/-- A word reads as far as its letters go. -/
theorem starts_word {word : Text} (hFirst : isWordChar c = true)
    (hWord : ∀ c ∈ word, isWordChar c = true) (hRest : HeadFails isWordChar rest)
    (hFound : ofWord? (c :: word) rest = some (t, after)) : Starts c (word ++ rest) t after := by
  obtain ⟨hTake, hDrop⟩ := takeWhile_append_of_headFails hWord hRest
  refine .word hFirst ?_
  rwa [hTake, hDrop]

/-! ### Lists of tokens -/

theorem scanAt_of_isBlank (position : Nat) (h : isBlank c = true) :
    scanAt position (c :: rest) = scanAt (position + 1) rest := by
  rw [scanAt.eq_def position (c :: rest)]
  exact if_pos h

theorem scanAt_of_next (position : Nat) (hBlank : ¬isBlank c = true)
    (h : next position c rest = .ok (t, after)) :
    scanAt position (c :: rest) =
      (scanAt (position + (rest.length + 1 - after.length)) after).map (t :: ·) := by
  rw [scanAt.eq_def position (c :: rest)]
  dsimp only
  rw [if_neg hBlank]
  split
  · rename_i hError
    rw [h] at hError
    cases hError
  · rename_i hOk
    rw [h] at hOk
    cases hOk
    split <;> simp_all [Except.map]

theorem scanAt_of_next_error {e : LexError} (hBlank : ¬isBlank c = true)
    (h : next position c rest = .error e) : scanAt position (c :: rest) = .error e := by
  rw [scanAt.eq_def position (c :: rest)]
  dsimp only
  rw [if_neg hBlank]
  split
  · rename_i hError
    rw [h] at hError
    cases hError
    rfl
  · rename_i hOk
    rw [h] at hOk
    cases hOk

theorem scans_nil : Scans [] [] := by
  intro position
  unfold scanAt
  rfl

theorem Scans.blank (h : Scans rest ts) (hBlank : isBlank c = true) : Scans (c :: rest) ts := by
  intro position
  rw [scanAt_of_isBlank position hBlank]
  exact h (position + 1)

theorem scans_of_isAllBlank {s : Text} (h : s.isAllBlank = true) : Scans s [] := by
  induction s with
  | nil => exact scans_nil
  | cons c s ih =>
    rw [Text.isAllBlank, List.all_cons, Bool.and_eq_true] at h
    exact (ih h.2).blank h.1

theorem Scans.cons (h : Scans after ts) (hBlank : isBlank c = false)
    (hStarts : Starts c rest t after) : Scans (c :: rest) (t :: ts) := by
  intro position
  have hToken : ¬isBlank c = true := by simp [hBlank]
  rw [scanAt_of_next position hToken (next_eq_ok_iff.mpr hStarts), h]
  rfl

theorem Scans.number {s : Text} {d : Decimal} (h : Scans rest ts) (hDigit : c.isDigit = true)
    (hRead : Numeral.read? Numeral.isExpressionMark (c :: s) = some (d, rest)) :
    Scans (c :: s) (.number (d.toBinary64 false) :: ts) :=
  h.cons (isBlank_of_isDigit hDigit) (.number (by simp [Key.isDigitOrPoint, hDigit]) hRead)

/-- The text ends in a digit and is one numeral, which reads as the number in front of every text
that does not extend it. -/
structure IsNumeral (s : Text) (x : Binary64) : Prop where
  scans : ∀ {rest ts}, HeadFails isExtension rest → Scans rest ts →
    Scans (s ++ rest) (.number x :: ts)
  last : ∃ c ∈ s.getLast?, c.isDigit = true

theorem IsNumeral.alone {s : Text} {x : Binary64} (h : IsNumeral s x) : Scans s [.number x] := by
  have hScans := h.scans (headFails_nil isExtension) scans_nil
  rwa [List.append_nil] at hScans

theorem isNumeral_plain (d : Decimal) : IsNumeral d.plain (d.toBinary64 false) := by
  refine ⟨fun hRest h => ?_, Numeral.exists_mem_getLast?_plain d⟩
  obtain ⟨c, s, hText, hDigit⟩ := Numeral.exists_plain_eq_cons d
  obtain ⟨d', hRead, hValue⟩ := Numeral.exists_read?_plain Numeral.isExpressionMark d
    (hRest.mono fun c hc => by simp [isExtension, hc])
    (hRest.mono fun c hc => by simp_all [isExtension])
    (hRest.mono isExtension_of_isExpressionMark)
  rw [← Decimal.toBinary64_congr false hValue]
  rw [hText, List.cons_append] at *
  exact h.number hDigit hRead

theorem isNumeral_scientificText (d : Decimal) :
    IsNumeral (Display.scientificText d) (d.toBinary64 false) := by
  refine ⟨fun hRest h => ?_, Numeral.exists_mem_getLast?_scientificText d⟩
  obtain ⟨c, s, hText, hDigit⟩ := Numeral.exists_scientificText_eq_cons d
  obtain ⟨d', hRead, hValue⟩ := Numeral.exists_read?_scientificText Numeral.isExpressionMark d
    rfl (hRest.mono fun c hc => by simp [isExtension, hc])
  rw [← Decimal.toBinary64_congr false hValue]
  rw [hText, List.cons_append] at *
  exact h.number hDigit hRead

theorem isNumeral_shortest (m : Magnitude) : IsNumeral m.shortest.plain (.finite false m) := by
  rw [← Decimal.toBinary64_of_nearest? false m.nearest?_shortest]
  exact isNumeral_plain m.shortest

theorem Scans.constant (k : Constant) (h : Scans rest ts) (hRest : HeadFails isExtension rest) :
    Scans (k.symbol ++ rest) (.constant k :: ts) := by
  cases k with
  | pi => exact h.cons (by decide) (.pi rfl)
  | e =>
    have hWord : HeadFails isWordChar rest := hRest.mono fun c hc => by simp [isExtension, hc]
    have hStarts : Starts 'e' ([] ++ rest) (.constant .e) rest :=
      starts_word (by decide) (by simp) hWord rfl
    exact h.cons (by decide) hStarts

theorem exists_name_eq_cons (f : Func) :
    ∃ c word, f.name = c :: word ∧ isBlank c = false ∧ isWordChar c = true ∧
      word.all isWordChar = true ∧ Constant.ofName? f.name = none := by
  cases f <;> exact ⟨_, _, rfl, by decide, by decide, by decide, by decide⟩

theorem Scans.function (f : Func) (h : Scans rest ts) :
    Scans (f.opener ++ rest) (.function f :: ts) := by
  obtain ⟨c, word, hName, hBlank, hFirst, hWord, hConstant⟩ := exists_name_eq_cons f
  have hText : f.opener ++ rest = c :: (word ++ '(' :: rest) := by
    rw [Func.opener, hName]
    simp
  have hFound : ofWord? (c :: word) ('(' :: rest) = some (.function f, rest) := by
    simp only [← hName, ofWord?, hConstant, Func.ofName?_name]
  rw [hText]
  exact h.cons hBlank
    (starts_word hFirst (List.all_eq_true.mp hWord) (headFails_cons.mpr (by decide)) hFound)

theorem Scans.openParen (h : Scans rest ts) : Scans ('(' :: rest) (.openParen :: ts) :=
  h.cons (by decide) (.sign (by decide) (by decide) rfl)

theorem Scans.closeParen (h : Scans rest ts) : Scans (')' :: rest) (.closeParen :: ts) :=
  h.cons (by decide) (.sign (by decide) (by decide) rfl)

theorem Scans.minus (h : Scans rest ts) : Scans ('-' :: rest) (.operator .sub :: ts) :=
  h.cons (by decide) (.sign (by decide) (by decide) rfl)

theorem ofSign?_asterisk (hRest : HeadFails (· == '*') rest) :
    ofSign? '*' rest = some (.operator .mul, rest) := by
  cases rest with
  | nil => rfl
  | cons c rest =>
    have hOther : c ≠ '*' := by simpa using hRest
    unfold ofSign?
    split <;> simp_all [Operator.ofChar?]

/-- An operator in front of a text that does not start with an asterisk. -/
theorem Scans.symbol (op : Operator) (h : Scans rest ts) (hRest : HeadFails (· == '*') rest) :
    Scans (op.symbol :: rest) (.operator op :: ts) := by
  have hFound : ofSign? op.symbol rest = some (.operator op, rest) := by
    cases op with
    | mul => exact ofSign?_asterisk hRest
    | _ => rfl
  exact h.cons (by cases op <;> decide)
    (.sign (by cases op <;> decide) (by cases op <;> decide) hFound)

/-- An operator between blanks. -/
theorem Scans.operator (op : Operator) (h : Scans rest ts) :
    Scans (' ' :: op.symbol :: ' ' :: rest) (.operator op :: ts) := by
  have hRest : Scans (' ' :: rest) ts := h.blank (by decide)
  exact (hRest.symbol op (by simp)).blank (by decide)

end Calculator.Token
