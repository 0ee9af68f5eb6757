import Calculator.Proofs.ErrorPosition
import Calculator.Proofs.SessionSteps

/-! The number keys behind a number. A digit goes on with the literal at the end of the buffer, and
so does a point behind a whole number; a second point is refused. The check for a second point looks
at the digits and points at the end only, so behind an exponent every point is typed, and none of
them can be read. -/

namespace Calculator

/-! ### Literals -/

namespace Numeral

variable {s tail after digits plain part rest : Text} {c : Char}

/-- Digits with at most one point, and one digit at least. -/
inductive IsPlain : Text → Prop
  | whole {digits : Text} : (∀ c ∈ digits, c.isDigit = true) → digits ≠ [] → IsPlain digits
  | point {whole fraction : Text} : (∀ c ∈ whole, c.isDigit = true) →
      (∀ c ∈ fraction, c.isDigit = true) → ¬(whole = [] ∧ fraction = []) →
      IsPlain (whole ++ '.' :: fraction)

/-- An exponent mark, at most one sign, and digits. -/
inductive IsExponentPart : Text → Prop
  | unsigned {digits : Text} : (∀ c ∈ digits, c.isDigit = true) → digits ≠ [] →
      IsExponentPart ('e' :: digits)
  | signed {sign : Char} {digits : Text} : sign = '+' ∨ sign = '-' →
      (∀ c ∈ digits, c.isDigit = true) → digits ≠ [] → IsExponentPart ('e' :: sign :: digits)

/-- The text of a number in an expression. -/
inductive IsLiteral : Text → Prop
  | plain {plain : Text} : IsPlain plain → IsLiteral plain
  | exponent {plain part : Text} : IsPlain plain → IsExponentPart part → IsLiteral (plain ++ part)

theorem forall_isDigit_append (hDigits : ∀ c ∈ digits, c.isDigit = true) (h : c.isDigit = true) :
    ∀ d ∈ digits ++ [c], d.isDigit = true := by
  simpa [or_imp, forall_and, h] using hDigits

theorem IsPlain.append_digit (h : IsPlain s) (hDigit : c.isDigit = true) : IsPlain (s ++ [c]) := by
  cases h with
  | whole hDigits _ => exact .whole (forall_isDigit_append hDigits hDigit) (by simp)
  | point hWhole hFraction _ =>
    rw [List.append_assoc, List.cons_append]
    exact .point hWhole (forall_isDigit_append hFraction hDigit) (by simp)

theorem IsPlain.append_point (h : IsPlain s) (hPoint : '.' ∉ s) : IsPlain (s ++ ['.']) := by
  cases h with
  | whole hDigits hNonempty => exact .point hDigits (by simp) fun hNone => hNonempty hNone.1
  | point _ _ _ => simp at hPoint

theorem IsExponentPart.append_digit (h : IsExponentPart s) (hDigit : c.isDigit = true) :
    IsExponentPart (s ++ [c]) := by
  cases h with
  | unsigned hDigits _ => exact .unsigned (forall_isDigit_append hDigits hDigit) (by simp)
  | signed hSign hDigits _ => exact .signed hSign (forall_isDigit_append hDigits hDigit) (by simp)

theorem IsLiteral.append_digit (h : IsLiteral s) (hDigit : c.isDigit = true) :
    IsLiteral (s ++ [c]) := by
  cases h with
  | plain hPlain => exact .plain (hPlain.append_digit hDigit)
  | exponent hPlain hPart =>
    rw [List.append_assoc]
    exact .exponent hPlain (hPart.append_digit hDigit)

theorem IsPlain.isDigitOrPoint (h : IsPlain s) : ∀ c ∈ s, Key.isDigitOrPoint c = true := by
  have hDigit : ∀ c : Char, c.isDigit = true → Key.isDigitOrPoint c = true :=
    fun c hc => by simp [Key.isDigitOrPoint, hc]
  cases h with
  | whole hDigits _ => exact fun c hc => hDigit c (hDigits c hc)
  | point hWhole hFraction _ =>
    intro c hc
    rcases List.mem_append.mp hc with hc | hc
    · exact hDigit c (hWhole c hc)
    · rcases List.mem_cons.mp hc with rfl | hc
      · rfl
      · exact hDigit c (hFraction c hc)

theorem IsPlain.ne_nil (h : IsPlain s) : s ≠ [] := by
  cases h with
  | whole _ hNonempty => exact hNonempty
  | point _ _ _ => simp

theorem IsPlain.notMem_mark (h : IsPlain s) : 'e' ∉ s :=
  fun hMem => absurd (h.isDigitOrPoint 'e' hMem) (by decide)

/-- A plain number and what follows it: only an exponent part is still a part of the numeral. -/
theorem IsPlain.exists_read? (h : IsPlain plain) (hRest : HeadFails Key.isDigitOrPoint rest) :
    ∃ d, read? isExpressionMark (plain ++ rest) =
      some (d, (readExponent isExpressionMark rest).2) := by
  have hDigit : HeadFails Char.isDigit rest :=
    hRest.mono fun c hc => by simp [Key.isDigitOrPoint, hc]
  cases h with
  | whole hDigits hNonempty =>
    have hPoint : HeadFails (· == '.') rest :=
      hRest.mono fun c hc => by simp_all [Key.isDigitOrPoint]
    exact ⟨_, read?_whole isExpressionMark hDigits hNonempty hDigit hPoint⟩
  | point hWhole hFraction hNonempty =>
    rw [List.append_assoc, List.cons_append]
    exact ⟨_, read?_fraction isExpressionMark hWhole hFraction hNonempty hDigit⟩

theorem IsExponentPart.readExponent_append (h : IsExponentPart part)
    (hRest : HeadFails Char.isDigit rest) :
    (readExponent isExpressionMark (part ++ rest)).2 = rest := by
  have hMark : isExpressionMark 'e' = true := rfl
  cases h with
  | @unsigned digits hDigits hNonempty =>
    obtain ⟨d, digits, rfl⟩ := List.exists_cons_of_ne_nil hNonempty
    have hSign : readSign (d :: (digits ++ rest)) = (false, d :: (digits ++ rest)) :=
      readSign_of_isDigit (hDigits d List.mem_cons_self)
    have hRead := readDigits_append_of_headFails hDigits hRest
    rw [List.cons_append] at hRead
    simp [readExponent, hMark, hSign, hRead]
  | @signed sign digits hSign hDigits hNonempty =>
    have hRead := readDigits_append_of_headFails hDigits hRest
    rcases hSign with rfl | rfl
    · simp [readExponent, hMark, readSign, hRead, hNonempty]
    · simp [readExponent, hMark, readSign, hRead, hNonempty]

theorem of_readDigits (h : readDigits s = (digits, after)) :
    s = digits ++ after ∧ ∀ c ∈ digits, c.isDigit = true := by
  obtain ⟨rfl, rfl⟩ := Prod.mk.inj h
  exact ⟨(readDigits_append s).symm, List.all_eq_true.mp List.all_takeWhile⟩

theorem of_readFraction (h : readFraction s = (digits, after)) :
    (s = '.' :: (digits ++ after) ∧ ∀ c ∈ digits, c.isDigit = true) ∨ digits = [] ∧ s = after := by
  unfold readFraction at h
  split at h
  · obtain ⟨hText, hDigits⟩ := of_readDigits h
    exact .inl ⟨by rw [hText], hDigits⟩
  · obtain ⟨rfl, rfl⟩ := Prod.mk.inj h
    exact .inr ⟨rfl, rfl⟩

theorem readSign_cases (s : Text) :
    (readSign s).2 = s ∨ ∃ sign, (sign = '+' ∨ sign = '-') ∧ s = sign :: (readSign s).2 := by
  unfold readSign
  split
  · exact .inr ⟨'-', .inr rfl, rfl⟩
  · exact .inr ⟨'+', .inl rfl, rfl⟩
  · exact .inl rfl

theorem isExponentPart_of_readExponent {e : ℤ} (h : readExponent isExpressionMark s = (e, []))
    (hNonempty : s ≠ []) : IsExponentPart s := by
  obtain ⟨c, s, rfl⟩ := List.exists_cons_of_ne_nil hNonempty
  by_cases hMark : isExpressionMark c = true
  · obtain rfl : c = 'e' := by simpa [isExpressionMark] using hMark
    rcases hDigits : readDigits (readSign s).2 with ⟨digits, rest⟩
    simp only [readExponent, hMark, if_true, hDigits] at h
    cases digits with
    | nil => simp at h
    | cons digit digits =>
      simp only [List.isEmpty_cons, Bool.false_eq_true, if_false, Prod.mk.injEq] at h
      obtain ⟨hText, hAll⟩ := of_readDigits hDigits
      rw [h.2, List.append_nil] at hText
      rcases readSign_cases s with hUnsigned | ⟨sign, hSign, hSigned⟩
      · rw [← hUnsigned, hText]
        exact .unsigned hAll (List.cons_ne_nil _ _)
      · rw [hSigned, hText]
        exact .signed hSign hAll (List.cons_ne_nil _ _)
  · have hOther : isExpressionMark c = false := by simpa using hMark
    rw [readExponent_of_headFails (headFails_cons.mpr hOther)] at h
    cases h

theorem IsExponentPart.mark_mem (h : IsExponentPart part) : 'e' ∈ part := by
  cases h with
  | unsigned _ _ => exact List.mem_cons_self
  | signed _ _ _ => exact List.mem_cons_self

theorem IsExponentPart.headFails_append (h : IsExponentPart part) (rest : Text) :
    HeadFails Key.isDigitOrPoint (part ++ rest) := by
  cases h with
  | unsigned _ _ => exact headFails_cons.mpr (by decide)
  | signed _ _ _ => exact headFails_cons.mpr (by decide)

/-- A text that is one numeral is a literal. -/
theorem isLiteral_of_read? {d : Decimal} (h : read? isExpressionMark s = some (d, [])) :
    IsLiteral s := by
  obtain ⟨whole, afterWhole, fraction, part, e, hWhole, hFraction, hExponent, hSome, -⟩ :=
    read?_eq_some_iff.mp h
  obtain ⟨plain, rfl, hPlain⟩ : ∃ plain, s = plain ++ part ∧ IsPlain plain := by
    obtain ⟨rfl, hDigits⟩ := of_readDigits hWhole
    rcases of_readFraction hFraction with ⟨rfl, hDigits'⟩ | ⟨rfl, rfl⟩
    · exact ⟨_, by rw [List.append_assoc, List.cons_append], .point hDigits hDigits' hSome⟩
    · exact ⟨whole, rfl, .whole hDigits fun hNone => hSome ⟨hNone, rfl⟩⟩
  by_cases hPart : part = []
  · rw [hPart, List.append_nil]
    exact .plain hPlain
  · exact .exponent hPlain (isExponentPart_of_readExponent hExponent hPart)

theorem IsLiteral.exists_read? (h : IsLiteral s) :
    ∃ d, read? isExpressionMark s = some (d, []) := by
  cases h with
  | plain hPlain =>
    obtain ⟨d, hRead⟩ := hPlain.exists_read? (headFails_nil _)
    rw [List.append_nil] at hRead
    exact ⟨d, hRead⟩
  | @exponent plain part hPlain hPart =>
    obtain ⟨d, hRead⟩ := hPlain.exists_read? (hPart.headFails_append [])
    rw [hPart.readExponent_append (headFails_nil _), List.append_nil] at hRead
    exact ⟨d, hRead⟩

theorem IsPlain.exists_cons (h : IsPlain s) :
    ∃ c rest, s = c :: rest ∧ Key.isDigitOrPoint c = true := by
  obtain ⟨c, rest, rfl⟩ := List.exists_cons_of_ne_nil h.ne_nil
  exact ⟨c, rest, rfl, h.isDigitOrPoint c List.mem_cons_self⟩

theorem IsLiteral.exists_cons (h : IsLiteral s) :
    ∃ c rest, s = c :: rest ∧ Key.isDigitOrPoint c = true := by
  cases h with
  | plain hPlain => exact hPlain.exists_cons
  | exponent hPlain _ =>
    obtain ⟨c, rest, rfl, hFirst⟩ := hPlain.exists_cons
    exact ⟨c, _, rfl, hFirst⟩

theorem IsLiteral.last (h : IsLiteral s) : ∃ c ∈ s.getLast?, Key.isDigitOrPoint c = true := by
  have hDigits (front : Text) {digits : Text} (hDigits : ∀ c ∈ digits, c.isDigit = true)
      (hNonempty : digits ≠ []) :
      ∃ c ∈ (front ++ digits).getLast?, Key.isDigitOrPoint c = true := by
    obtain ⟨c, hLast, hDigit⟩ := exists_mem_getLast?_append (s := front) hDigits hNonempty
    exact ⟨c, hLast, by simp [Key.isDigitOrPoint, hDigit]⟩
  cases h with
  | plain hPlain =>
    have hMem := List.getLast_mem hPlain.ne_nil
    exact ⟨_, List.getLast?_eq_some_getLast hPlain.ne_nil, hPlain.isDigitOrPoint _ hMem⟩
  | exponent hPlain hPart =>
    cases hPart with
    | unsigned hAll hNonempty =>
      rw [List.append_cons]
      exact hDigits _ hAll hNonempty
    | signed _ hAll hNonempty =>
      rw [List.append_cons, List.append_cons]
      exact hDigits _ hAll hNonempty

/-! ### Numerals with a text behind them -/

theorem readDigits_append_of_ne_nil (more : Text) (h : (readDigits s).2 ≠ []) :
    readDigits (s ++ more) = ((readDigits s).1, (readDigits s).2 ++ more) := by
  obtain ⟨hTake, hDrop⟩ :
      (s ++ more).takeWhile Char.isDigit = s.takeWhile Char.isDigit ∧
        (s ++ more).dropWhile Char.isDigit = s.dropWhile Char.isDigit ++ more :=
    takeWhile_append_tail fun hNil => absurd hNil h
  rw [readDigits, hTake, hDrop]
  rfl

theorem readFraction_append_of_ne_nil (more : Text) (h : (readFraction s).2 ≠ []) :
    readFraction (s ++ more) = ((readFraction s).1, (readFraction s).2 ++ more) := by
  cases s with
  | nil => exact absurd rfl h
  | cons c s =>
    by_cases hPoint : c = '.'
    · subst hPoint
      exact readDigits_append_of_ne_nil more h
    · have hOther : (c == '.') = false := beq_false_of_ne hPoint
      rw [List.cons_append, readFraction_of_headFails (headFails_cons.mpr hOther),
        readFraction_of_headFails (headFails_cons.mpr hOther), List.cons_append]

/-- An exponent part that does not reach the last digit is read the same, and so is a mark alone. -/
theorem readExponent_append_of_last {e : ℤ} (more : Text)
    (h : readExponent isExpressionMark s = (e, after))
    (hLast : ∃ last ∈ after.getLast?, Key.isDigitOrPoint last = true) :
    readExponent isExpressionMark (s ++ more) = (e, after ++ more) := by
  obtain ⟨last, hMem, hLast⟩ := hLast
  cases s with
  | nil =>
    cases h
    cases hMem
  | cons c s =>
    by_cases hMark : isExpressionMark c = true
    · obtain rfl : c = 'e' := by simpa [isExpressionMark] using hMark
      have hTail : s ≠ [] := by
        rintro rfl
        cases h
        cases hMem
        cases hLast
      simp only [List.cons_append, readExponent, hMark, if_true, readSign_append more hTail] at h ⊢
      have hReach : (readDigits (readSign s).2).2 ≠ [] := by
        intro hReach
        split at h
        · -- There are no digits, so the text ends with the mark or a sign.
          rename_i hNone
          have hSign : (readSign s).2 = [] := by
            rw [← readDigits_append (readSign s).2, List.isEmpty_iff.mp hNone, hReach]
            rfl
          cases h
          rcases readSign_cases s with hUnsigned | ⟨sign, rfl | rfl, hSigned⟩
          · exact hTail (hUnsigned.symm.trans hSign)
          · rw [hSigned, hSign] at hMem
            cases hMem
            cases hLast
          · rw [hSigned, hSign] at hMem
            cases hMem
            cases hLast
        · cases h
          rw [hReach] at hMem
          cases hMem
      rw [readDigits_append_of_ne_nil more hReach]
      split at h
      · rename_i hNone
        cases h
        rw [if_pos hNone]
        rfl
      · rename_i hNone
        cases h
        rw [if_neg hNone]
    · have hOther : isExpressionMark c = false := by simpa using hMark
      rw [readExponent_of_headFails (headFails_cons.mpr hOther)] at h
      cases h
      exact readExponent_of_headFails (headFails_cons.mpr hOther)

/-- Behind a numeral that does not reach the last digit, anything may be added. -/
theorem read?_append_of_last {d : Decimal} (more : Text)
    (h : read? isExpressionMark s = some (d, after))
    (hLast : ∃ last ∈ after.getLast?, Key.isDigitOrPoint last = true) :
    read? isExpressionMark (s ++ more) = some (d, after ++ more) := by
  obtain ⟨whole, afterWhole, fraction, afterFraction, e, hWhole, hFraction, hExponent, hSome,
    rfl⟩ := read?_eq_some_iff.mp h
  have hExponent' := readExponent_append_of_last more hExponent hLast
  have hAfter : after ≠ [] := by
    rintro rfl
    simp at hLast
  obtain ⟨front, rfl, -⟩ : Leaves Key.isDigitOrPoint afterFraction after := by
    simpa [hExponent] using leaves_readExponent isExpressionMark afterFraction
  have hFraction' : readFraction (afterWhole ++ more) = (fraction, front ++ after ++ more) := by
    rw [readFraction_append_of_ne_nil more (by simp [hFraction, hAfter]), hFraction]
  obtain ⟨front', rfl, -⟩ : Leaves Key.isDigitOrPoint afterWhole (front ++ after) := by
    simpa [hFraction] using leaves_readFraction afterWhole
  have hWhole' : readDigits (s ++ more) = (whole, front' ++ (front ++ after) ++ more) := by
    rw [readDigits_append_of_ne_nil more (by simp [hWhole, hAfter]), hWhole]
  exact read?_eq_some_iff.mpr ⟨_, _, _, _, _, hWhole', hFraction', hExponent', hSome, rfl⟩

end Numeral

/-! ### The last literal -/

namespace Token

open Numeral (IsLiteral)

variable {position : Nat} {c : Char} {s rest after tail front literal : Text} {t : Token}
  {ts : List Token} {x : Binary64}

theorem Starts.append_of_last (h : Starts c rest t after) (more : Text)
    (hLast : ∃ last ∈ after.getLast?, Key.isDigitOrPoint last = true) :
    Starts c (rest ++ more) t (after ++ more) := by
  have hAfter : after ≠ [] := by
    rintro rfl
    simp at hLast
  cases h with
  | number hFirst hRead => exact .number hFirst (Numeral.read?_append_of_last more hRead hLast)
  | pi hPi => exact .pi hPi
  | word hFirst hFound =>
    have hReach : rest.dropWhile isWordChar ≠ [] := by
      intro hReach
      rw [hReach] at hFound
      rcases exists_last_of_ofWord? hFound with ⟨hNil, -⟩ | ⟨hNil, -⟩
      · exact hAfter hNil.symm
      · cases hNil
    obtain ⟨hTake, hDrop⟩ :
        (rest ++ more).takeWhile isWordChar = rest.takeWhile isWordChar ∧
          (rest ++ more).dropWhile isWordChar = rest.dropWhile isWordChar ++ more :=
      takeWhile_append_tail fun hNil => absurd hNil hReach
    refine .word hFirst ?_
    rw [hTake, hDrop, ofWord?_append_tail _ fun hNil => absurd hNil hReach, hFound]
    rfl
  | sign hOther hPi hFound =>
    have hRest : rest ≠ [] := by
      rintro rfl
      have hLength := length_le_of_ofSign? hFound
      exact hAfter (List.length_eq_zero_iff.mp (Nat.le_zero.mp hLength))
    refine .sign hOther hPi ?_
    rw [ofSign?_append_tail fun hNil => absurd hNil hRest, hFound]
    rfl

/-- What stands before a literal is read the same when the literal is made longer. -/
theorem ReadsBefore.append_of_last (h : ReadsBefore tail position front ts) (more : Text)
    (hLast : ∃ last ∈ tail.getLast?, Key.isDigitOrPoint last = true) :
    ReadsBefore (tail ++ more) position front ts := by
  induction h with
  | nil => exact .nil
  | blank hBlank _ ih => exact .blank hBlank ih
  | @token position c front after t ts hBlank hStarts _ ih =>
    obtain ⟨last, hMem, hLast⟩ := hLast
    have hEnd : last ∈ (after ++ tail).getLast? := by
      rw [List.getLast?_append, hMem]
      rfl
    have hStarts' := hStarts.append_of_last more ⟨last, hEnd, hLast⟩
    rw [List.append_assoc, List.append_assoc] at hStarts'
    exact .token hBlank hStarts' ih

theorem ReadsBefore.eq_nil (h : ReadsBefore tail position [] ts) : ts = [] := by
  cases h with
  | nil => rfl

theorem ReadsBefore.isAllBlank (h : ReadsBefore tail position front []) :
    ∀ c ∈ front, isBlank c = true := by
  generalize hNone : [] = ts at h
  induction h with
  | nil => simp
  | blank hBlank _ ih => simpa using ⟨hBlank, ih hNone⟩
  | token _ _ _ _ => cases hNone

theorem Starts.getLast?_eq (h : Starts c rest t after) (hAfter : after ≠ []) :
    (c :: rest).getLast? = after.getLast? := by
  obtain ⟨taken, rfl⟩ := h.suffix
  rw [← List.cons_append, List.getLast?_append_of_ne_nil _ hAfter]

/-- The last token of a text that does not end with a blank, and what stands before it. -/
theorem ReadsBefore.exists_last (h : ReadsBefore [] position s (ts ++ [t]))
    (hEnd : ∃ last ∈ s.getLast?, isBlank last = false) :
    ∃ front c rest, s = front ++ c :: rest ∧ ReadsBefore (c :: rest) position front ts ∧
      ¬isBlank c = true ∧ Starts c rest t [] := by
  generalize hTokens : ts ++ [t] = us at h
  induction h generalizing ts with
  | nil => simp at hTokens
  | @blank position c front us hBlank hReads ih =>
    have hFront : front ≠ [] := by
      rintro rfl
      rw [hReads.eq_nil] at hTokens
      simp at hTokens
    have hSame : (c :: front).getLast? = front.getLast? :=
      List.getLast?_append_of_ne_nil [c] hFront
    rw [hSame] at hEnd
    obtain ⟨front', d, rest, rfl, hReads', hBlank', hStarts⟩ := ih hEnd hTokens
    exact ⟨c :: front', d, rest, rfl, hReads'.blank hBlank, hBlank', hStarts⟩
  | @token position c front after t' us hBlank hStarts hReads ih =>
    rw [List.append_nil, List.append_nil] at hStarts
    cases ts with
    | nil =>
      obtain ⟨rfl, rfl⟩ := List.cons.inj hTokens
      obtain rfl : after = [] := by
        by_contra hAfter
        obtain ⟨last, hMem, hLast⟩ := hEnd
        rw [hStarts.getLast?_eq hAfter] at hMem
        rw [hReads.isAllBlank last (List.mem_of_getLast? hMem)] at hLast
        cases hLast
      exact ⟨[], c, front, rfl, .nil, hBlank, hStarts⟩
    | cons t'' ts =>
      obtain ⟨rfl, rfl⟩ := List.cons.inj hTokens
      have hAfter : after ≠ [] := by
        rintro rfl
        simpa using hReads.eq_nil
      rw [hStarts.getLast?_eq hAfter] at hEnd
      obtain ⟨front', d, rest, rfl, hReads', hBlank', hLast⟩ := ih hEnd rfl
      obtain ⟨taken, rfl, hReads'', -⟩ := hReads'.cons hBlank hStarts
      exact ⟨c :: taken, d, rest, rfl, hReads'', hBlank', hLast⟩

theorem Starts.scans (h : Starts c rest t []) (hBlank : ¬isBlank c = true) :
    Scans (c :: rest) [t] :=
  scans_nil.cons (by simpa using hBlank) h

theorem not_isBlank_of_isDigitOrPoint (h : Key.isDigitOrPoint c = true) : ¬isBlank c = true := by
  rw [Key.isDigitOrPoint, Bool.or_eq_true, beq_iff_eq] at h
  rcases h with hDigit | rfl
  · rw [isBlank_of_isDigit hDigit]
    decide
  · decide

/-- The last number of a text that ends with it: its literal, and what stands before that. -/
theorem exists_last_literal (h : scan s = .ok (ts ++ [.number x]))
    (hEnd : ∃ last ∈ s.getLast?, isBlank last = false) :
    ∃ front literal, s = front ++ literal ∧ ReadsBefore literal 0 front ts ∧ IsLiteral literal ∧
      scan literal = .ok [.number x] := by
  obtain ⟨front, c, rest, rfl, hReads, hBlank, hStarts⟩ :=
    (readsBefore_of_scanAt h).exists_last hEnd
  obtain ⟨d, -, hRead⟩ := hStarts.exists_numeral
  exact ⟨front, c :: rest, rfl, hReads, Numeral.isLiteral_of_read? hRead,
    hStarts.scans hBlank 0⟩

theorem exists_scans_literal (h : IsLiteral s) : ∃ x, Scans s [.number x] := by
  obtain ⟨c, rest, rfl, hFirst⟩ := h.exists_cons
  obtain ⟨d, hRead⟩ := h.exists_read?
  exact ⟨_, Starts.scans (.number hFirst hRead) (not_isBlank_of_isDigitOrPoint hFirst)⟩

/-- A literal takes the place of the last one. -/
theorem ReadsBefore.exists_scan (h : ReadsBefore literal 0 front ts)
    (hLiteral : IsLiteral literal) : ∃ x, scan (front ++ literal) = .ok (ts ++ [.number x]) := by
  obtain ⟨x, hScans⟩ := exists_scans_literal hLiteral
  exact ⟨x, by rw [scan, h.scanAt_append, hScans]; rfl⟩

/-- A point behind an exponent is a token of its own, which lacks its digits. -/
theorem scanAt_exponent_point (position : Nat) {plain part : Text} (hPlain : Numeral.IsPlain plain)
    (hPart : Numeral.IsExponentPart part) :
    scanAt position (plain ++ part ++ ['.']) =
      .error (.invalidNumber ['.'] (position + (plain ++ part).length)) := by
  have hHead : HeadFails Key.isDigitOrPoint (part ++ ['.']) := hPart.headFails_append _
  obtain ⟨d, hRead⟩ := hPlain.exists_read? hHead
  rw [hPart.readExponent_append (headFails_cons.mpr rfl)] at hRead
  obtain ⟨c, rest, rfl, hFirst⟩ := hPlain.exists_cons
  have hStarts : Starts c (rest ++ (part ++ ['.'])) _ ['.'] := .number hFirst hRead
  have hBlank := not_isBlank_of_isDigitOrPoint hFirst
  have hPoint (position : Nat) : scanAt position ['.'] = .error (.invalidNumber ['.'] position) :=
    scanAt_of_next_error (by decide) rfl
  rw [List.append_assoc, List.cons_append,
    scanAt_of_next position hBlank (next_eq_ok_iff.mpr hStarts), hPoint]
  simp [Except.map, Nat.add_assoc]

end Token

namespace Buffer

variable {input front s : Text} {c : Char}

theorem mem_currentNumber_append (front : Text) (h : ∀ c ∈ s, Key.isDigitOrPoint c = true)
    (hMem : c ∈ s) : c ∈ currentNumber (front ++ s) := by
  have hRun : ∀ c ∈ s.reverse, Key.isDigitOrPoint c = true := by simpa using h
  rw [currentNumber, List.reverse_append, List.takeWhile_append_of_pos hRun]
  simp [hMem]

theorem currentNumber_of_digits (front : Text) {digits : Text}
    (hFirst : Key.isDigitOrPoint c = false) (hDigits : ∀ d ∈ digits, d.isDigit = true) :
    currentNumber (front ++ c :: digits) = digits := by
  have hRun : ∀ d ∈ digits.reverse, Key.isDigitOrPoint d = true := by
    intro d hd
    simp [Key.isDigitOrPoint, hDigits d (List.mem_reverse.mp hd)]
  have hText : (front ++ c :: digits).reverse = digits.reverse ++ c :: front.reverse := by simp
  obtain ⟨hTake, -⟩ := takeWhile_append_of_headFails hRun (headFails_cons.mpr hFirst)
  rw [currentNumber, hText, hTake, List.reverse_reverse]

/-- The digits of an exponent are a number without a point. -/
theorem point_notMem_currentNumber (front : Text) (h : Numeral.IsExponentPart s) :
    '.' ∉ currentNumber (front ++ s) := by
  cases h with
  | unsigned hDigits _ =>
    rw [currentNumber_of_digits front (by decide) hDigits]
    exact fun hMem => absurd (hDigits '.' hMem) (by decide)
  | @signed sign digits hSign hDigits _ =>
    have hFirst : Key.isDigitOrPoint sign = false := by rcases hSign with rfl | rfl <;> decide
    rw [List.append_cons, currentNumber_of_digits _ hFirst hDigits]
    exact fun hMem => absurd (hDigits '.' hMem) (by decide)

theorem typeDigit?_of_isDigit (input : Text) (h : c.isDigit = true) :
    typeDigit? input c = some (if input = start then [c] else
      if input = '-' :: start then ['-', c] else input ++ [c]) := by
  have hPoint : c ≠ '.' := by
    rintro rfl
    cases h
  rw [typeDigit?, if_neg hPoint]
  split
  · rfl
  · split
    · rfl
    · rfl

end Buffer

namespace Session

open Numeral (IsExponentPart IsLiteral IsPlain)

variable {s : Session} {ts : List Token} {x : Binary64}

theorem input_press_digit {c : Char} (s : Session) (h : c.isDigit = true) :
    (s.press (.digit c)).input = if s.input = Buffer.start then [c] else
      if s.input = '-' :: Buffer.start then ['-', c] else s.input ++ [c] := by
  simp only [press, typeDigit, Buffer.typeDigit?_of_isDigit _ h, input_edit]

theorem input_press_point (s : Session) :
    (s.press (.digit '.')).input =
      if '.' ∈ Buffer.currentNumber s.input then s.input else s.input ++ ['.'] := by
  rw [press, typeDigit, Buffer.typeDigit?, if_pos rfl]
  split
  · rename_i hTyped
    split at hTyped
    · cases hTyped
    · rename_i hPoint
      cases hTyped
      rw [input_edit, if_neg hPoint]
  · rename_i hRefused
    split at hRefused
    · rename_i hPoint
      rw [if_pos hPoint]
    · cases hRefused

theorem exists_scan_press_digit {front literal : Text} {c : Char}
    (hInput : s.input = front ++ literal) (hReads : Token.ReadsBefore literal 0 front ts)
    (hLiteral : IsLiteral literal) (hDigit : c.isDigit = true) :
    ∃ y, Token.scan (s.press (.digit c)).input = .ok (ts ++ [.number y]) := by
  have hNew : IsLiteral [c] := .plain (.whole (by simpa using hDigit) (by simp))
  obtain ⟨first, rest, rfl, hFirst⟩ := hLiteral.exists_cons
  rw [input_press_digit s hDigit, hInput]
  split
  · rename_i hZero
    obtain rfl : front = [] := by
      cases front with
      | nil => rfl
      | cons d front => simp [Buffer.start] at hZero
    rw [hReads.eq_nil]
    exact Token.ReadsBefore.nil.exists_scan hNew
  · split
    · rename_i hZero
      -- The digit takes the place of the zero behind the minus.
      obtain rfl : front = ['-'] := by
        cases front with
        | nil =>
          obtain ⟨rfl, -⟩ := List.cons.inj hZero
          cases hFirst
        | cons d front =>
          simp only [Buffer.start, List.cons_append, List.cons.injEq, List.append_eq_singleton_iff,
            reduceCtorEq, and_false, or_false] at hZero
          rw [hZero.1, hZero.2.1]
      have hMinus : Token.scan ['-'] = .ok [.operator .sub] := Token.scans_nil.minus 0
      obtain rfl : ts = [.operator .sub] := Except.ok.inj (hReads.scanAt_front.symm.trans hMinus)
      obtain ⟨y, hScans⟩ := Token.exists_scans_literal hNew
      exact ⟨y, hScans.minus 0⟩
    · rw [List.append_assoc]
      exact (hReads.append_of_last [c] hLiteral.last).exists_scan (hLiteral.append_digit hDigit)

/-- A point goes on with a whole number and leaves any other plain number as it is. -/
theorem exists_scan_press_point {front literal : Text}
    (hInput : s.input = front ++ literal) (hReads : Token.ReadsBefore literal 0 front ts)
    (hPlain : IsPlain literal) :
    ∃ y, Token.scan (s.press (.digit '.')).input = .ok (ts ++ [.number y]) := by
  rw [input_press_point]
  split
  · rw [hInput]
    exact hReads.exists_scan (.plain hPlain)
  · rename_i hPoint
    have hWhole : '.' ∉ literal := by
      rw [hInput] at hPoint
      exact mt (Buffer.mem_currentNumber_append front hPlain.isDigitOrPoint) hPoint
    rw [hInput, List.append_assoc]
    exact (hReads.append_of_last ['.'] (IsLiteral.plain hPlain).last).exists_scan
      (.plain (hPlain.append_point hWhole))

theorem scan_press_point_of_exponent {front plain part : Text}
    (hInput : s.input = front ++ (plain ++ part))
    (hReads : Token.ReadsBefore (plain ++ part) 0 front ts) (hPlain : IsPlain plain)
    (hPart : IsExponentPart part) :
    Token.scan (s.press (.digit '.')).input = .error (.invalidNumber ['.'] s.input.length) := by
  have hPoint : '.' ∉ Buffer.currentNumber s.input := by
    rw [hInput, ← List.append_assoc]
    exact Buffer.point_notMem_currentNumber _ hPart
  have hReads' := hReads.append_of_last ['.'] (IsLiteral.exponent hPlain hPart).last
  rw [input_press_point, if_neg hPoint, hInput, List.append_assoc, Token.scan,
    hReads'.scanAt_append, Token.scanAt_exponent_point _ hPlain hPart]
  simp [Except.map]

/-- A digit goes on with the literal at the end of the buffer. A point goes on with a whole number
and is refused behind another point, but behind an exponent it is typed and cannot be read. -/
theorem scan_press_digit (hScan : Token.scan s.input = .ok (ts ++ [.number x]))
    (hEnd : ∃ last ∈ s.input.getLast?, isBlank last = false) :
    ∃ front literal, s.input = front ++ literal ∧ Token.scan front = .ok ts ∧
      Token.scan literal = .ok [.number x] ∧
      (∀ c, c.isDigit = true →
        ∃ y, Token.scan (s.press (.digit c)).input = .ok (ts ++ [.number y])) ∧
      ('e' ∉ literal →
        ('.' ∈ literal → (s.press (.digit '.')).input = s.input) ∧
          ∃ y, Token.scan (s.press (.digit '.')).input = .ok (ts ++ [.number y])) ∧
      ('e' ∈ literal →
        Token.scan (s.press (.digit '.')).input =
          .error (.invalidNumber ['.'] s.input.length)) := by
  obtain ⟨front, literal, hInput, hReads, hLiteral, hLast⟩ := Token.exists_last_literal hScan hEnd
  refine ⟨front, literal, hInput, hReads.scanAt_front, hLast, fun c hDigit =>
    exists_scan_press_digit hInput hReads hLiteral hDigit, ?_, ?_⟩
  · intro hMark
    have hPlain : IsPlain literal := by
      cases hLiteral with
      | plain hPlain => exact hPlain
      | exponent _ hPart => exact absurd (List.mem_append_right _ hPart.mark_mem) hMark
    refine ⟨fun hPoint => ?_, exists_scan_press_point hInput hReads hPlain⟩
    rw [input_press_point, if_pos]
    rw [hInput]
    exact Buffer.mem_currentNumber_append front hPlain.isDigitOrPoint hPoint
  · intro hMark
    cases hLiteral with
    | plain hPlain => exact absurd hMark hPlain.notMem_mark
    | exponent hPlain hPart => exact scan_press_point_of_exponent hInput hReads hPlain hPart

/-- A decimal behind a plus: a digit goes on with it, and a second point does no harm. -/
theorem scan_press_digit_of_sum :
    let s := new.pressAll [.digit '2', .operator .add, .digit '1', .digit '.', .digit '5']
    let sum := [Token.number (.ofNat 2), .operator .add]
    Token.scan s.input = .ok (sum ++ [.number (.ofNat 3 / .ofNat 2)]) ∧
      (∃ y, Token.scan (s.press (.digit '0')).input = .ok (sum ++ [.number y])) ∧
      ∃ y, Token.scan (s.press (.digit '.')).input = .ok (sum ++ [.number y]) := by
  intro s sum
  have hInput : s.input = "2+1.5".toList := by decide +kernel
  have hScan : Token.scan s.input = .ok (sum ++ [.number (.ofNat 3 / .ofNat 2)]) := by
    rw [hInput]
    decide +kernel
  have hEnd : ∃ last ∈ s.input.getLast?, isBlank last = false := by
    rw [hInput]
    exact ⟨'5', rfl, by decide⟩
  obtain ⟨front, literal, hText, -, -, hDigit, hPlain, -⟩ := scan_press_digit hScan hEnd
  have hMark : 'e' ∉ literal := by
    intro hMem
    have hMem' : 'e' ∈ s.input := hText ▸ List.mem_append_right front hMem
    rw [hInput] at hMem'
    revert hMem'
    decide
  exact ⟨hScan, hDigit '0' rfl, (hPlain hMark).2⟩

/-- Behind the result `1.5e+10` a second point makes a text without tokens. -/
theorem not_scan_press_point :
    ¬ ∀ (keys : List Key) (ts : List Token) (x : Binary64),
      Token.scan (new.pressAll keys).input = .ok (ts ++ [.number x]) →
      (∃ last ∈ (new.pressAll keys).input.getLast?, isBlank last = false) →
        ∃ us y,
          Token.scan ((new.pressAll keys).press (.digit '.')).input = .ok (us ++ [.number y]) ∧
            us.length = ts.length := by
  intro h
  have hInput : (new.pressAll ("15000000000".toList.map .digit ++ [.equals])).input =
      "1.5e+10".toList := by
    decide +kernel
  obtain ⟨us, y, hScan, -⟩ := h ("15000000000".toList.map .digit ++ [.equals]) []
    (.ofNat 15000000000) (by rw [hInput]; decide +kernel)
    (by rw [hInput]; exact ⟨'0', rfl, by decide⟩)
  rw [input_press_point, hInput, if_neg (by decide)] at hScan
  have hError : Token.scan ("1.5e+10".toList ++ ['.']) = .error (.invalidNumber ['.'] 7) := by
    decide +kernel
  rw [hError] at hScan
  cases hScan

end Session

end Calculator
