import Calculator.Proofs.TokenBoundary

/-! Where the scanner fails. What stands in front of a text is read the same without that text, since
a token looks behind its end only to see whether it goes on. So the error of a text is that of its
first bad place, and what stands in front of that place has tokens. -/

namespace Calculator

theorem HeadFails.of_append {kind : Char → Bool} {s tail : Text} (h : HeadFails kind (s ++ tail)) :
    HeadFails kind s := by
  cases s with
  | nil => exact headFails_nil kind
  | cons c s => exact h

theorem headFails_dropWhile (kind : Char → Bool) (s : Text) :
    HeadFails kind (s.dropWhile kind) := by
  intro c hc
  have hHead := List.head?_dropWhile_not kind s
  rwa [Option.mem_def.mp hc] at hHead

/-- A run that ends in front of a tail is the same run without the tail. -/
theorem takeWhile_of_append {kind : Char → Bool} {s tail after : Text}
    (h : (s ++ tail).dropWhile kind = after ++ tail) :
    s.takeWhile kind = (s ++ tail).takeWhile kind ∧ s.dropWhile kind = after := by
  have hRun : ∀ c ∈ (s ++ tail).takeWhile kind, kind c = true :=
    List.all_eq_true.mp List.all_takeWhile
  have hAfter : HeadFails kind after := by
    have hHead := headFails_dropWhile kind (s ++ tail)
    rw [h] at hHead
    exact hHead.of_append
  have hText : (s ++ tail).takeWhile kind ++ after = s := by
    have hSplit := List.takeWhile_append_dropWhile (p := kind) (l := s ++ tail)
    rw [h, ← List.append_assoc] at hSplit
    exact List.append_cancel_right hSplit
  have hParts := takeWhile_append_of_headFails hRun hAfter
  rwa [hText] at hParts

/-! ### Numerals -/

namespace Numeral

variable {mark : Char → Bool} {s tail after digits : Text}

theorem readDigits_of_append (h : readDigits (s ++ tail) = (digits, after ++ tail)) :
    readDigits s = (digits, after) := by
  obtain ⟨hTake, hDrop⟩ := takeWhile_of_append (congrArg Prod.snd h)
  rw [readDigits, hTake, hDrop]
  exact congrArg (·.1, after) h

theorem readFraction_of_append (h : readFraction (s ++ tail) = (digits, after ++ tail)) :
    readFraction s = (digits, after) := by
  cases s with
  | nil =>
    -- The tail is left as it is, so no digits are read of it.
    obtain ⟨hLength, hFewer⟩ := length_readFraction tail
    rw [List.nil_append] at h
    rw [h, List.length_append] at hLength
    rw [h, List.length_append] at hFewer
    obtain rfl : after = [] := List.length_eq_zero_iff.mp (by omega)
    obtain rfl : digits = [] := by
      by_contra hDigits
      exact absurd (hFewer hDigits) (by simp)
    rfl
  | cons c s =>
    by_cases hPoint : c = '.'
    · subst hPoint
      exact readDigits_of_append h
    · have hOther : (c == '.') = false := beq_false_of_ne hPoint
      rw [List.cons_append, readFraction_of_headFails (headFails_cons.mpr hOther),
        ← List.cons_append, Prod.mk.injEq, List.append_cancel_right_eq] at h
      obtain ⟨rfl, rfl⟩ := h
      exact readFraction_of_headFails (headFails_cons.mpr hOther)

/-- An exponent part has a mark and a digit at least. -/
theorem readExponent_eq_self_or_le (mark : Char → Bool) (s : Text) :
    readExponent mark s = (0, s) ∨ (readExponent mark s).2.length + 2 ≤ s.length := by
  cases s with
  | nil => exact .inl rfl
  | cons c s =>
    by_cases hMark : mark c = true
    · have hSign := length_readSign_le s
      have hDigits := length_readDigits (readSign s).2
      by_cases hNone : (readDigits (readSign s).2).1.isEmpty
      · exact .inl (by simp [readExponent, hMark, hNone])
      · have hSome := List.isEmpty_eq_false_iff.mp (by simpa using hNone)
        have hPositive := List.length_pos_iff.mpr hSome
        right
        simp only [readExponent, hMark, hNone, if_true, Bool.false_eq_true, if_false,
          List.length_cons]
        omega
    · exact .inl (by simp [readExponent, hMark])

theorem readExponent_of_append {e : ℤ} (h : readExponent mark (s ++ tail) = (e, after ++ tail)) :
    readExponent mark s = (e, after) := by
  match s with
  | [] =>
    rw [List.nil_append] at h
    rcases readExponent_eq_self_or_le mark tail with hSelf | hShorter
    · rw [hSelf, Prod.mk.injEq, List.self_eq_append_left] at h
      obtain ⟨rfl, rfl⟩ := h
      rfl
    · rw [h, List.length_append] at hShorter
      omega
  | [c] =>
    rw [List.singleton_append] at h
    rcases readExponent_eq_self_or_le mark (c :: tail) with hSelf | hShorter
    · rw [hSelf, Prod.mk.injEq, ← List.singleton_append, List.append_cancel_right_eq] at h
      obtain ⟨rfl, rfl⟩ := h
      simp [readExponent, readSign, readDigits]
    · rw [h, List.length_append, List.length_cons] at hShorter
      omega
  | c :: d :: s =>
    by_cases hMark : mark c = true
    · rw [List.cons_append] at h
      simp only [readExponent, hMark, if_true, readSign_append tail (List.cons_ne_nil d s)] at h ⊢
      rcases hDigits : readDigits ((readSign (d :: s)).2 ++ tail) with ⟨digits, rest⟩
      rw [hDigits] at h
      cases digits with
      | nil =>
        have hNone : rest = (readSign (d :: s)).2 ++ tail := by
          rw [← readDigits_append ((readSign (d :: s)).2 ++ tail), hDigits, List.nil_append]
        rw [hNone] at hDigits
        rw [readDigits_of_append hDigits]
        simp only [List.isEmpty_nil, if_true, Prod.mk.injEq] at h ⊢
        rw [← List.cons_append, List.append_cancel_right_eq] at h
        exact h
      | cons digit digits =>
        simp only [List.isEmpty_cons, Bool.false_eq_true, if_false, Prod.mk.injEq] at h
        obtain ⟨rfl, rfl⟩ := h
        rw [readDigits_of_append hDigits]
        rfl
    · have hOther : mark c = false := by simpa using hMark
      rw [List.cons_append, readExponent_of_headFails (headFails_cons.mpr hOther),
        ← List.cons_append, Prod.mk.injEq, List.append_cancel_right_eq] at h
      obtain ⟨rfl, rfl⟩ := h
      exact readExponent_of_headFails (headFails_cons.mpr hOther)

theorem read?_eq_some_iff {d : Decimal} :
    read? mark s = some (d, after) ↔ ∃ whole afterWhole fraction afterFraction e,
      readDigits s = (whole, afterWhole) ∧ readFraction afterWhole = (fraction, afterFraction) ∧
        readExponent mark afterFraction = (e, after) ∧ ¬(whole = [] ∧ fraction = []) ∧
        d = ⟨Nat.ofDigitChars 10 (whole ++ fraction) 0, e - fraction.length⟩ := by
  constructor
  · intro h
    simp only [read?] at h
    split at h
    · cases h
    · rename_i hSome
      cases h
      refine ⟨(readDigits s).1, (readDigits s).2, (readFraction (readDigits s).2).1, _, _, rfl, rfl,
        rfl, ?_, rfl⟩
      simpa only [Bool.and_eq_true, List.isEmpty_iff] using hSome
  · rintro ⟨whole, afterWhole, fraction, afterFraction, e, hWhole, hFraction, hExponent, hSome, rfl⟩
    have hCheck : ¬(whole.isEmpty && fraction.isEmpty) = true := by simpa using hSome
    simp only [read?, hWhole, hFraction, hExponent, if_neg hCheck]

/-- A numeral in front of a tail is the same numeral without the tail. -/
theorem read?_of_append {d : Decimal} (h : read? mark (s ++ tail) = some (d, after ++ tail)) :
    read? mark s = some (d, after) := by
  obtain ⟨whole, afterWhole, fraction, afterFraction, e, hWhole, hFraction, hExponent, hSome,
    rfl⟩ := read?_eq_some_iff.mp h
  -- The tail is left of every part, since it is left of the last one.
  obtain ⟨front, rfl, -⟩ : Leaves Key.isDigitOrPoint afterFraction (after ++ tail) := by
    simpa [hExponent] using leaves_readExponent mark afterFraction
  rw [← List.append_assoc] at hExponent hFraction
  obtain ⟨front', rfl, -⟩ : Leaves Key.isDigitOrPoint afterWhole (front ++ after ++ tail) := by
    simpa [hFraction] using leaves_readFraction afterWhole
  rw [← List.append_assoc] at hFraction hWhole
  exact read?_eq_some_iff.mpr ⟨_, _, _, _, _, readDigits_of_append hWhole,
    readFraction_of_append hFraction, readExponent_of_append hExponent, hSome, rfl⟩

end Numeral

/-! ### Tokens -/

namespace Token

variable {position : Nat} {c : Char} {s rest after tail : Text} {t : Token} {ts us : List Token}

theorem ofWord?_of_append {word : Text}
    (h : ofWord? word (rest ++ tail) = some (t, after ++ tail)) : ofWord? word rest = some (t, after) := by
  cases hConstant : Constant.ofName? word with
  | some k =>
    simp only [ofWord?, hConstant, Option.some.injEq, Prod.mk.injEq, List.append_cancel_right_eq]
      at h ⊢
    exact h
  | none =>
    cases hFunc : Func.ofName? word with
    | none => simp [ofWord?, hConstant, hFunc] at h
    | some f =>
      have hOpener : rest = [] → HeadFails (· == '(') tail := by
        rintro rfl
        cases tail with
        | nil => exact headFails_nil _
        | cons d tail =>
          refine headFails_cons.mpr (beq_false_of_ne ?_)
          rintro rfl
          -- The function would take in the parenthesis, and the whole tail is left.
          have hLength := congrArg (fun found => found.map (·.2.length)) h
          simp only [ofWord?, hConstant, hFunc, List.nil_append, Option.map_some,
            List.length_append, List.length_cons, Option.some.injEq] at hLength
          omega
      rw [ofWord?_append_tail word hOpener, Option.map_eq_some_iff] at h
      obtain ⟨⟨t', after'⟩, hFound, hSame⟩ := h
      rw [Prod.mk.injEq, List.append_cancel_right_eq] at hSame
      obtain ⟨rfl, rfl⟩ := hSame
      exact hFound

theorem ofSign?_of_append (h : ofSign? c (rest ++ tail) = some (t, after ++ tail)) :
    ofSign? c rest = some (t, after) := by
  have hPower : rest = [] → c = '*' → HeadFails (· == '*') tail := by
    rintro rfl rfl
    cases tail with
    | nil => exact headFails_nil _
    | cons d tail =>
      refine headFails_cons.mpr (beq_false_of_ne ?_)
      rintro rfl
      -- The power would take in the second asterisk, and the whole tail is left.
      have hLength := congrArg (fun found => found.map (·.2.length)) h
      simp only [ofSign?, List.nil_append, Option.map_some, List.length_append,
        List.length_cons, Option.some.injEq] at hLength
      omega
  rw [ofSign?_append_tail hPower, Option.map_eq_some_iff] at h
  obtain ⟨⟨t', after'⟩, hFound, hSame⟩ := h
  rw [Prod.mk.injEq, List.append_cancel_right_eq] at hSame
  obtain ⟨rfl, rfl⟩ := hSame
  exact hFound

theorem Starts.length_le (h : Starts c rest t after) : after.length ≤ rest.length :=
  length_le_of_next (next_eq_ok_iff.mpr h : next 0 c rest = .ok (t, after))

theorem Starts.suffix (h : Starts c rest t after) : after <:+ rest := by
  obtain ⟨front, last, hText, -⟩ := h.exists_last
  cases front with
  | nil =>
    obtain ⟨-, rfl⟩ := List.cons.inj hText
    exact List.suffix_rfl
  | cons d front =>
    obtain ⟨-, rfl⟩ := List.cons.inj hText
    exact ⟨front ++ [last], by simp⟩

/-- A token in front of a tail is the same token without the tail. -/
theorem Starts.of_append (h : Starts c (rest ++ tail) t (after ++ tail)) :
    Starts c rest t after := by
  generalize hLeft : after ++ tail = left at h
  cases h with
  | number hNumeral hRead =>
    subst hLeft
    exact .number hNumeral (Numeral.read?_of_append (s := c :: rest) hRead)
  | pi hPi =>
    obtain rfl := List.append_cancel_right hLeft
    exact .pi hPi
  | word hFirst hFound =>
    subst hLeft
    obtain ⟨left, hLeft⟩ : ∃ left, (rest ++ tail).dropWhile isWordChar = left ++ tail := by
      rcases exists_last_of_ofWord? hFound with ⟨hAfter, -⟩ | ⟨hAfter, -⟩
      · exact ⟨after, hAfter⟩
      · exact ⟨'(' :: after, hAfter⟩
    obtain ⟨hTake, hDrop⟩ := takeWhile_of_append hLeft
    rw [hLeft, ← hTake] at hFound
    refine .word hFirst ?_
    rw [hDrop]
    exact ofWord?_of_append hFound
  | sign hOther hPi hFound =>
    subst hLeft
    exact .sign hOther hPi (ofSign?_of_append hFound)

/-! ### What stands in front of a text -/

/-- The front of a text, at a position, is read as the tokens, and the tail is left. -/
inductive ReadsBefore (tail : Text) : Nat → Text → List Token → Prop
  | nil {position : Nat} : ReadsBefore tail position [] []
  | blank {position : Nat} {c : Char} {front : Text} {ts : List Token} : isBlank c = true →
      ReadsBefore tail (position + 1) front ts → ReadsBefore tail position (c :: front) ts
  | token {position : Nat} {c : Char} {front after : Text} {t : Token} {ts : List Token} :
      ¬isBlank c = true → Starts c (front ++ tail) t (after ++ tail) →
      ReadsBefore tail (position + (front.length + 1 - after.length)) after ts →
      ReadsBefore tail position (c :: front) (t :: ts)

namespace ReadsBefore

variable {front : Text}

/-- The front without the tail is read the same. -/
theorem alone (h : ReadsBefore tail position front ts) : ReadsBefore [] position front ts := by
  induction h with
  | nil => exact .nil
  | blank hBlank _ ih => exact .blank hBlank ih
  | token hBlank hStarts _ ih =>
    refine .token hBlank ?_ ih
    rw [List.append_nil, List.append_nil]
    exact hStarts.of_append

/-- The tail is scanned behind the tokens of the front. -/
theorem scanAt_append (h : ReadsBefore tail position front ts) :
    scanAt position (front ++ tail) =
      (scanAt (position + front.length) tail).map (ts ++ ·) := by
  induction h with
  | @nil position =>
    rw [List.nil_append, List.length_nil, Nat.add_zero]
    cases scanAt position tail with
    | error e => rfl
    | ok us => rfl
  | @blank position c front ts hBlank _ ih =>
    have hEnd : position + (c :: front).length = position + 1 + front.length := by
      rw [List.length_cons]
      omega
    rw [List.cons_append, scanAt_of_isBlank _ hBlank, ih, hEnd]
  | @token position c front after t ts hBlank hStarts _ ih =>
    have hLength := hStarts.length_le
    simp only [List.length_append] at hLength
    have hStart : position + ((front ++ tail).length + 1 - (after ++ tail).length) =
        position + (front.length + 1 - after.length) := by
      simp only [List.length_append]
      omega
    have hEnd : position + (front.length + 1 - after.length) + after.length =
        position + (c :: front).length := by
      rw [List.length_cons]
      omega
    rw [List.cons_append, scanAt_of_next position hBlank (next_eq_ok_iff.mpr hStarts), hStart, ih,
      hEnd]
    cases scanAt (position + (c :: front).length) tail with
    | error e => rfl
    | ok us => rfl

theorem scanAt_front (h : ReadsBefore tail position front ts) : scanAt position front = .ok ts := by
  have hScan := h.alone.scanAt_append
  rwa [List.append_nil, scans_nil, Except.map, List.append_nil] at hScan

/-- A token in front of what is read so, with the place where the tail stands. -/
theorem cons (h : ReadsBefore tail (position + (rest.length + 1 - (front ++ tail).length)) front ts)
    (hBlank : ¬isBlank c = true) (hStarts : Starts c rest t (front ++ tail)) :
    ∃ front', rest = front' ++ tail ∧ ReadsBefore tail position (c :: front') (t :: ts) ∧
      position + (c :: front').length =
        position + (rest.length + 1 - (front ++ tail).length) + front.length := by
  obtain ⟨taken, rfl⟩ := hStarts.suffix
  rw [← List.append_assoc] at hStarts
  have hStart : (taken ++ (front ++ tail)).length + 1 - (front ++ tail).length =
      (taken ++ front).length + 1 - front.length := by
    simp only [List.length_append]
    omega
  rw [hStart] at h ⊢
  refine ⟨taken ++ front, (List.append_assoc ..).symm, .token hBlank hStarts h, ?_⟩
  simp only [List.length_cons, List.length_append]
  omega

end ReadsBefore

/-- A text without tokens has a first place where no token can be read. -/
theorem exists_readsBefore_of_error {e : LexError} (h : scanAt position s = .error e) :
    ∃ front c rest ts, s = front ++ c :: rest ∧ ReadsBefore (c :: rest) position front ts ∧
      ¬isBlank c = true ∧ next (position + front.length) c rest = .error e := by
  induction position, s using scanAt.induct with
  | case1 position =>
    rw [scans_nil] at h
    cases h
  | case2 position c rest hBlank ih =>
    rw [scanAt_of_isBlank position hBlank] at h
    obtain ⟨front, d, rest', ts, rfl, hReads, hBlank', hNext⟩ := ih h
    refine ⟨c :: front, d, rest', ts, rfl, hReads.blank hBlank, hBlank', ?_⟩
    rwa [List.length_cons, Nat.add_comm front.length, ← Nat.add_assoc]
  | case3 position c rest hBlank e' hNext =>
    rw [scanAt_of_next_error hBlank hNext] at h
    cases h
    exact ⟨[], c, rest, [], rfl, .nil, hBlank, hNext⟩
  | case4 position c rest hBlank t after hNext _ e' hRest ih =>
    rw [scanAt_of_next position hBlank hNext, hRest] at h
    cases h
    obtain ⟨front, d, rest', ts, rfl, hReads, hBlank', hError⟩ := ih hRest
    have hStarts := next_eq_ok_iff.mp hNext
    obtain ⟨front', rfl, hReads', hPlace⟩ := hReads.cons hBlank hStarts
    exact ⟨c :: front', d, rest', t :: ts, rfl, hReads', hBlank', by rwa [hPlace]⟩
  | case5 position c rest hBlank t after hNext _ ts hRest _ =>
    rw [scanAt_of_next position hBlank hNext, hRest] at h
    cases h

theorem readsBefore_of_scanAt (h : scanAt position s = .ok ts) : ReadsBefore [] position s ts := by
  induction position, s using scanAt.induct generalizing ts with
  | case1 position =>
    rw [scans_nil] at h
    cases h
    exact .nil
  | case2 position c rest hBlank ih =>
    rw [scanAt_of_isBlank position hBlank] at h
    exact .blank hBlank (ih h)
  | case3 position c rest hBlank e hNext =>
    rw [scanAt_of_next_error hBlank hNext] at h
    cases h
  | case4 position c rest hBlank t after hNext _ e hRest _ =>
    rw [scanAt_of_next position hBlank hNext, hRest] at h
    cases h
  | case5 position c rest hBlank t after hNext _ ts' hRest ih =>
    rw [scanAt_of_next position hBlank hNext, hRest] at h
    cases h
    have hStarts := next_eq_ok_iff.mp hNext
    rw [← List.append_nil rest, ← List.append_nil after] at hStarts
    exact .token hBlank hStarts (ih hRest)

/-! ### Errors and numbers -/

theorem headFails_of_read?_eq_none {mark : Char → Bool}
    (h : Numeral.read? mark (c :: rest) = none) (hFirst : Key.isDigitOrPoint c = true) :
    c = '.' ∧ HeadFails Char.isDigit rest := by
  have hNone : (Numeral.readDigits (c :: rest)).1 = [] ∧
      (Numeral.readFraction (Numeral.readDigits (c :: rest)).2).1 = [] := by
    simpa [Numeral.read?] using h
  have hDigit : c.isDigit = false := by
    cases hDigit : c.isDigit with
    | false => rfl
    | true => simp [Numeral.readDigits, hDigit] at hNone
  obtain rfl : c = '.' := by simpa [Key.isDigitOrPoint, hDigit] using hFirst
  have hFraction : rest.takeWhile Char.isDigit = [] := hNone.2
  refine ⟨rfl, ?_⟩
  cases rest with
  | nil => exact headFails_nil _
  | cons d rest =>
    rw [headFails_cons]
    cases hNext : d.isDigit with
    | false => rfl
    | true => simp [hNext] at hFraction

/-- A character that starts no token is unknown, but for a point without a digit. -/
theorem next_eq_error {e : LexError} (h : next position c rest = .error e) :
    e = .unknownCharacter c position ∨
      e = .invalidNumber ['.'] position ∧ c = '.' ∧ HeadFails Char.isDigit rest := by
  unfold next at h
  split at h
  · rename_i hFirst
    split at h
    · cases h
    · rename_i hRead
      cases h
      exact .inr ⟨rfl, headFails_of_read?_eq_none hRead hFirst⟩
  · split at h
    · cases h
    · dsimp only at h
      split at h
      · cases h
      · cases h
        exact .inl rfl

/-- Only a numeral is read as a number. -/
theorem Starts.exists_numeral {x : Binary64} (h : Starts c rest (.number x) after) :
    ∃ d : Decimal, x = d.toBinary64 false ∧
      Numeral.read? Numeral.isExpressionMark (c :: rest) = some (d, after) := by
  cases h with
  | @number d _ _ hRead => exact ⟨d, rfl, hRead⟩
  | word _ hFound =>
    unfold ofWord? at hFound
    split at hFound
    · cases hFound
    · split at hFound
      · cases hFound
      · cases hFound
      · cases hFound
  | sign _ _ hFound =>
    unfold ofSign? at hFound
    split at hFound
    · cases hFound
    · cases hFound
    · cases hFound
    · obtain ⟨op, -, hSame⟩ := Option.map_eq_some_iff.mp hFound
      cases hSame

/-- The number of a token is not negative, and neither is a zero. -/
theorem Starts.isUnsigned {x : Binary64} (h : Starts c rest (.number x) after) :
    x = .infinite false ∨ ∃ m, x = .finite false m := by
  obtain ⟨d, rfl, -⟩ := h.exists_numeral
  unfold Decimal.toBinary64
  cases d.nearest? with
  | some m => exact .inr ⟨m, rfl⟩
  | none => exact .inl rfl

theorem ReadsBefore.isUnsigned {front : Text} {x : Binary64}
    (h : ReadsBefore tail position front ts) (hMem : .number x ∈ ts) :
    x = .infinite false ∨ ∃ m, x = .finite false m := by
  induction h with
  | nil => cases hMem
  | blank _ _ ih => exact ih hMem
  | token _ hStarts _ ih =>
    rcases List.mem_cons.mp hMem with rfl | hMem
    · exact hStarts.isUnsigned
    · exact ih hMem

/-- The error of a text is that of its first bad place: a character there is unknown, or it is a
point without a digit behind it, and all that stands before it has tokens. No other numeral is
refused, and the numbers of the tokens have their sign bit clear. -/
theorem scan_first_error (s : Text) :
    (∀ c position, scan s = .error (.unknownCharacter c position) →
      s[position]? = some c ∧ ∃ ts, scan (s.take position) = .ok ts) ∧
    (∀ numeral position, scan s = .error (.invalidNumber numeral position) →
      numeral = ['.'] ∧ s[position]? = some '.' ∧ HeadFails Char.isDigit (s.drop (position + 1)) ∧
        ∃ ts, scan (s.take position) = .ok ts) ∧
    ∀ ts, scan s = .ok ts → ∀ x, .number x ∈ ts →
      x = .infinite false ∨ ∃ m, x = .finite false m := by
  refine ⟨?_, ?_, ?_⟩
  · intro c position hScan
    obtain ⟨front, c', rest, ts, rfl, hReads, -, hNext⟩ := exists_readsBefore_of_error hScan
    rw [Nat.zero_add] at hNext
    rcases next_eq_error hNext with hError | ⟨hError, -⟩
    · cases hError
      exact ⟨by simp, ts, by rw [List.take_left]; exact hReads.scanAt_front⟩
    · cases hError
  · intro numeral position hScan
    obtain ⟨front, c, rest, ts, rfl, hReads, -, hNext⟩ := exists_readsBefore_of_error hScan
    rw [Nat.zero_add] at hNext
    rcases next_eq_error hNext with hError | ⟨hError, rfl, hDigit⟩
    · cases hError
    · cases hError
      refine ⟨rfl, by simp, by simpa using hDigit, ts, ?_⟩
      rw [List.take_left]
      exact hReads.scanAt_front
  · intro ts hScan x hMem
    exact (readsBefore_of_scanAt hScan).isUnsigned hMem

/-- A word behind an exponent mark without digits, a point behind another one, and a numeral beyond
the largest number. -/
theorem scan_first_error_of_exponent_marks :
    let unknown := "2e+π\u00A0asn(".toList
    let invalid := "1.5e-.".toList
    let beyond := "1e999".toList
    scan unknown = .error (.unknownCharacter 'a' 5) ∧ unknown[5]? = some 'a' ∧
      (∃ ts, scan (unknown.take 5) = .ok ts) ∧
      scan invalid = .error (.invalidNumber ['.'] 5) ∧ invalid[5]? = some '.' ∧
      (∃ ts, scan (invalid.take 5) = .ok ts) ∧
      scan beyond = .ok [.number (.infinite false)] ∧
      (Binary64.infinite false = .infinite false ∨
        ∃ m, Binary64.infinite false = .finite false m) := by
  intro unknown invalid beyond
  have hUnknown : scan unknown = .error (.unknownCharacter 'a' 5) := by decide +kernel
  have hInvalid : scan invalid = .error (.invalidNumber ['.'] 5) := by decide +kernel
  have hBeyond : scan beyond = .ok [.number (.infinite false)] := by decide +kernel
  obtain ⟨hPlace, hFront⟩ := (scan_first_error unknown).1 'a' 5 hUnknown
  obtain ⟨-, hPlace', -, hFront'⟩ := (scan_first_error invalid).2.1 ['.'] 5 hInvalid
  have hSign := (scan_first_error beyond).2.2 _ hBeyond _ (List.mem_singleton.mpr rfl)
  exact ⟨hUnknown, hPlace, hFront, hInvalid, hPlace', hFront', hBeyond, hSign⟩

end Token

end Calculator
