import Calculator.Proofs.Scanning

/-! Where a text may be cut without a change to its tokens. The scanner looks at a tail only to see
whether it goes on with the last token; a tail that does not is scanned as if it stood alone. What a
token takes in ends with a character that tells its kind. -/

namespace Calculator

theorem takeWhile_append_tail {kind : Char → Bool} {s tail : Text}
    (h : s.dropWhile kind = [] → HeadFails kind tail) :
    (s ++ tail).takeWhile kind = s.takeWhile kind ∧
      (s ++ tail).dropWhile kind = s.dropWhile kind ++ tail := by
  induction s with
  | nil =>
    have hNone : ∀ c ∈ ([] : Text), kind c = true := by simp
    exact takeWhile_append_of_headFails hNone (h rfl)
  | cons c s ih =>
    by_cases hKind : kind c = true
    · rw [List.dropWhile_cons_of_pos hKind] at h
      simpa [hKind] using ih h
    · simp [hKind]

/-- The text goes on with `after` behind a front that is empty or ends with a character of the
kind. -/
def Leaves (kind : Char → Bool) (s after : Text) : Prop :=
  ∃ front, s = front ++ after ∧ ∀ last ∈ front.getLast?, kind last = true

namespace Leaves

variable {kind : Char → Bool} {s between after : Text}

theorem refl (kind : Char → Bool) (s : Text) : Leaves kind s s := ⟨[], rfl, by simp⟩

theorem trans (h : Leaves kind s between) (h' : Leaves kind between after) :
    Leaves kind s after := by
  obtain ⟨front, rfl, hFront⟩ := h
  obtain ⟨front', rfl, hFront'⟩ := h'
  refine ⟨front ++ front', (List.append_assoc ..).symm, fun last hLast => ?_⟩
  rw [List.getLast?_append, Option.mem_def, Option.or_eq_some_iff] at hLast
  rcases hLast with hLast | ⟨-, hLast⟩
  · exact hFront' last hLast
  · exact hFront last hLast

theorem of_forall {front : Text} (h : ∀ c ∈ front, kind c = true) (after : Text) :
    Leaves kind (front ++ after) after :=
  ⟨front, rfl, fun last hLast => h last (List.mem_of_getLast? hLast)⟩

theorem dropWhile (kind : Char → Bool) (s : Text) : Leaves kind s (s.dropWhile kind) := by
  have hFront : ∀ c ∈ s.takeWhile kind, kind c = true := List.all_eq_true.mp List.all_takeWhile
  have h := of_forall hFront (s.dropWhile kind)
  rwa [List.takeWhile_append_dropWhile] at h

theorem mono {kind' : Char → Bool} (h : Leaves kind s after)
    (hKind : ∀ c, kind c = true → kind' c = true) : Leaves kind' s after := by
  obtain ⟨front, hText, hFront⟩ := h
  exact ⟨front, hText, fun last hLast => hKind last (hFront last hLast)⟩

theorem exists_last (h : Leaves kind s after) (hShorter : after.length < s.length) :
    ∃ front last, s = front ++ last :: after ∧ kind last = true := by
  obtain ⟨front, rfl, hFront⟩ := h
  have hNonempty : front ≠ [] := by
    rintro rfl
    simp at hShorter
  refine ⟨front.dropLast, front.getLast hNonempty, ?_, ?_⟩
  · rw [← List.singleton_append, ← List.append_assoc, List.dropLast_append_getLast]
  · exact hFront _ (List.getLast?_eq_some_getLast hNonempty)

theorem append_left (front : Text) (h : Leaves kind s after) (hShorter : after.length < s.length) :
    Leaves kind (front ++ s) after := by
  obtain ⟨front', last, rfl, hLast⟩ := h.exists_last hShorter
  exact ⟨front ++ front' ++ [last], by simp, by simpa using hLast⟩

end Leaves

/-! ### Numerals -/

namespace Numeral

variable {mark : Char → Bool} {s tail : Text}

/-- Whether the character, other than a mark, may stand inside a numeral. -/
def isPart (c : Char) : Bool := c.isDigit || c == '.' || c == '+' || c == '-'

theorem isPart_of_isDigit (c : Char) (h : c.isDigit = true) : isPart c = true := by
  simp [isPart, h]

theorem readDigits_append_tail (s : Text) (h : HeadFails isPart tail) :
    readDigits (s ++ tail) = ((readDigits s).1, (readDigits s).2 ++ tail) := by
  obtain ⟨hTake, hDrop⟩ :=
    takeWhile_append_tail (s := s) fun _ => h.mono isPart_of_isDigit
  rw [readDigits, hTake, hDrop]
  rfl

theorem readFraction_append_tail (s : Text) (h : HeadFails isPart tail) :
    readFraction (s ++ tail) = ((readFraction s).1, (readFraction s).2 ++ tail) := by
  have hPoint : HeadFails (· == '.') tail := h.mono fun c hc => by simp_all [isPart]
  cases s with
  | nil => exact readFraction_of_headFails hPoint
  | cons c s =>
    by_cases hFirst : c = '.'
    · subst hFirst
      exact readDigits_append_tail s h
    · have hOther : (c == '.') = false := beq_false_of_ne hFirst
      rw [List.cons_append, readFraction_of_headFails (headFails_cons.mpr hOther),
        readFraction_of_headFails (headFails_cons.mpr hOther), List.cons_append]

theorem readSign_append_tail (s : Text) (h : HeadFails isPart tail) :
    readSign (s ++ tail) = ((readSign s).1, (readSign s).2 ++ tail) := by
  cases s with
  | nil =>
    refine readSign_of_headFails (h.mono fun c hc => ?_)
    rw [Bool.or_eq_true, beq_iff_eq, beq_iff_eq] at hc
    rcases hc with rfl | rfl
    · rfl
    · rfl
  | cons c s => exact readSign_append tail (List.cons_ne_nil c s)

theorem readExponent_append_tail (h : HeadFails isPart tail) (hMark : s = [] → HeadFails mark tail) :
    readExponent mark (s ++ tail) = ((readExponent mark s).1, (readExponent mark s).2 ++ tail) := by
  cases s with
  | nil => exact readExponent_of_headFails (hMark rfl)
  | cons c s =>
    by_cases hFirst : mark c = true
    · simp only [List.cons_append, readExponent, hFirst, if_true, readSign_append_tail s h,
        readDigits_append_tail _ h]
      split
      · rfl
      · rfl
    · simp [readExponent, hFirst]

/-- A numeral does not go on with a tail that neither continues it nor adds an exponent. -/
theorem read?_append_tail (h : HeadFails isPart tail)
    (hMark : (readFraction (readDigits s).2).2 = [] → HeadFails mark tail) :
    read? mark (s ++ tail) = (read? mark s).map fun (d, after) => (d, after ++ tail) := by
  simp only [read?, readDigits_append_tail s h, readFraction_append_tail _ h,
    readExponent_append_tail h hMark]
  split
  · rfl
  · rfl

theorem leaves_readDigits (s : Text) : Leaves Key.isDigitOrPoint s (readDigits s).2 :=
  (Leaves.dropWhile Char.isDigit s).mono fun c hc => by simp [Key.isDigitOrPoint, hc]

theorem leaves_readFraction (s : Text) : Leaves Key.isDigitOrPoint s (readFraction s).2 := by
  unfold readFraction
  split
  · rename_i rest
    have hPoint : Leaves Key.isDigitOrPoint (['.'] ++ rest) rest :=
      .of_forall (by simp [Key.isDigitOrPoint]) rest
    exact hPoint.trans (leaves_readDigits rest)
  · exact .refl _ s

theorem readSign_suffix (s : Text) : (readSign s).2 <:+ s := by
  unfold readSign
  split
  · exact List.suffix_cons ..
  · exact List.suffix_cons ..
  · exact List.suffix_rfl

theorem leaves_readExponent (mark : Char → Bool) (s : Text) :
    Leaves Key.isDigitOrPoint s (readExponent mark s).2 := by
  cases s with
  | nil => exact .refl _ []
  | cons c s =>
    by_cases hMark : mark c = true
    · cases hDigits : (readDigits (readSign s).2).1 with
      | nil =>
        simp only [readExponent, hMark, if_true, hDigits, List.isEmpty_nil]
        exact .refl _ (c :: s)
      | cons d digits =>
        simp only [readExponent, hMark, if_true, hDigits, List.isEmpty_cons, Bool.false_eq_true,
          if_false]
        have hLength := length_readDigits (readSign s).2
        rw [hDigits, List.length_cons] at hLength
        obtain ⟨sign, hSign⟩ := readSign_suffix s
        have hLeaves := (leaves_readDigits (readSign s).2).append_left (c :: sign) (by omega)
        rwa [List.cons_append, hSign] at hLeaves
    · simp only [readExponent, hMark, Bool.false_eq_true, if_false]
      exact .refl _ (c :: s)

/-- What a numeral takes in ends with a digit or a point. -/
theorem leaves_of_read? {d : Decimal} {after : Text} (h : read? mark s = some (d, after)) :
    Leaves Key.isDigitOrPoint s after := by
  have hAll := ((leaves_readDigits s).trans (leaves_readFraction _)).trans
    (leaves_readExponent mark _)
  simp only [read?] at h
  split at h
  · cases h
  · cases h
    exact hAll

end Numeral

/-! ### Tokens -/

namespace Token

variable {position : Nat} {c last : Char} {s rest after tail : Text} {t : Token}
  {ts us : List Token}

/-- The tail does not go on with the last token of the text, whatever that is. A numeral may look
for digits behind an exponent mark and a sign, so the tail starts with none of these in any case. -/
structure Apart (s tail : Text) : Prop where
  numeral : HeadFails Numeral.isPart tail
  word : ∀ last ∈ s.getLast?, isExtension last = true →
    HeadFails (fun c => isWordChar c || c == '(') tail
  power : s.getLast? = some '*' → HeadFails (· == '*') tail

theorem Apart.suffix (front : Text) (h : Apart (front ++ after) tail) : Apart after tail := by
  have hLast {last : Char} (hAfter : after.getLast? = some last) :
      (front ++ after).getLast? = some last := by
    rw [List.getLast?_append, hAfter, Option.some_or]
  exact ⟨h.numeral, fun last hAfter => h.word last (hLast hAfter),
    fun hAfter => h.power (hLast hAfter)⟩

theorem apart_nil (s : Text) : Apart s [] :=
  ⟨headFails_nil _, fun _ _ _ => headFails_nil _, fun _ => headFails_nil _⟩

/-- A tail stands apart if it starts with a character that goes on with no token. An asterisk goes
on with another one. -/
theorem apart_cons (rest : Text) (hExtends : isExtension c = false) (hOpener : c ≠ '(')
    (hSign : c ≠ '+' ∧ c ≠ '-') (hPower : s.getLast? = some '*' → c ≠ '*') :
    Apart s (c :: rest) where
  numeral := headFails_cons.mpr (by simp_all [isExtension, Numeral.isPart])
  word := fun _ _ _ => headFails_cons.mpr (by simp_all [isExtension])
  power := fun hLast => headFails_cons.mpr (beq_false_of_ne (hPower hLast))

theorem apart_asterisk (rest : Text) (h : s.getLast? ≠ some '*') : Apart s ('*' :: rest) :=
  apart_cons rest (by decide) (by decide) (by decide) fun hAsterisk => absurd hAsterisk h

theorem Apart.headFails_isWordChar (h : Apart s tail) (hLast : last ∈ s.getLast?)
    (hExtends : isExtension last = true) : HeadFails isWordChar tail :=
  (h.word last hLast hExtends).mono fun c hc => by simp [hc]

theorem read?_append_of_apart (h : Apart s tail) (hStart : s ≠ []) :
    Numeral.read? Numeral.isExpressionMark (s ++ tail) =
      (Numeral.read? Numeral.isExpressionMark s).map fun (d, after) => (d, after ++ tail) := by
  refine Numeral.read?_append_tail h.numeral fun hWhole => ?_
  have hLeaves := (Numeral.leaves_readDigits s).trans (Numeral.leaves_readFraction _)
  rw [hWhole] at hLeaves
  obtain ⟨front, last, rfl, hLast⟩ := hLeaves.exists_last (List.length_pos_iff.mpr hStart)
  have hMem : last ∈ (front ++ [last]).getLast? := by simp
  have hWord := h.headFails_isWordChar hMem (by simp_all [isExtension, Key.isDigitOrPoint])
  exact hWord.mono fun c hc => by
    obtain rfl : c = 'e' := by simpa [Numeral.isExpressionMark] using hc
    decide

theorem exists_last_of_word (rest : Text) (hFirst : isWordChar c = true) :
    ∃ front last, c :: rest = front ++ last :: rest.dropWhile isWordChar ∧
      isWordChar last = true := by
  have hFront : Leaves isWordChar ([c] ++ rest) rest := .of_forall (by simpa) rest
  have hShorter := (List.dropWhile_suffix isWordChar (l := rest)).length_le
  exact (hFront.trans (.dropWhile isWordChar rest)).exists_last (Nat.lt_succ_of_le hShorter)

/-- Behind a word that reaches the end, the tail starts with neither a letter nor an opener. -/
theorem Apart.headFails_of_word (h : Apart (c :: rest) tail) (hFirst : isWordChar c = true)
    (hWhole : rest.dropWhile isWordChar = []) :
    HeadFails (fun c => isWordChar c || c == '(') tail := by
  obtain ⟨front, last, hText, hLast⟩ := exists_last_of_word rest hFirst
  rw [hWhole] at hText
  exact h.word last (by rw [hText]; simp) (by simp [isExtension, hLast])

theorem ofWord?_bareFunction {word : Text} {f : Func} (hConstant : Constant.ofName? word = none)
    (hFunc : Func.ofName? word = some f) (hRest : HeadFails (· == '(') rest) :
    ofWord? word rest = some (bareFunction f, rest) := by
  cases rest with
  | nil => simp [ofWord?, hConstant, hFunc]
  | cons c rest =>
    have hOther : c ≠ '(' := by simpa using hRest
    simp [ofWord?, hConstant, hFunc, hOther]

theorem ofWord?_append_tail (word : Text) (h : rest = [] → HeadFails (· == '(') tail) :
    ofWord? word (rest ++ tail) =
      (ofWord? word rest).map fun (t, after) => (t, after ++ tail) := by
  cases hConstant : Constant.ofName? word with
  | some k => simp [ofWord?, hConstant]
  | none =>
    cases hFunc : Func.ofName? word with
    | none => simp [ofWord?, hConstant, hFunc]
    | some f =>
      cases rest with
      | nil =>
        rw [List.nil_append, ofWord?_bareFunction hConstant hFunc (h rfl),
          ofWord?_bareFunction hConstant hFunc (headFails_nil _)]
        rfl
      | cons c rest =>
        by_cases hOpener : c = '('
        · subst hOpener
          simp [ofWord?, hConstant, hFunc]
        · have hOther : (c == '(') = false := beq_false_of_ne hOpener
          rw [List.cons_append, ofWord?_bareFunction hConstant hFunc (headFails_cons.mpr hOther),
            ofWord?_bareFunction hConstant hFunc (headFails_cons.mpr hOther)]
          rfl

theorem ofSign?_append_tail (h : rest = [] → c = '*' → HeadFails (· == '*') tail) :
    ofSign? c (rest ++ tail) = (ofSign? c rest).map fun (t, after) => (t, after ++ tail) := by
  by_cases hAsterisk : c = '*'
  · subst hAsterisk
    cases rest with
    | nil =>
      rw [List.nil_append, ofSign?_asterisk (h rfl rfl), ofSign?_asterisk (headFails_nil _)]
      rfl
    | cons d rest =>
      by_cases hPower : d = '*'
      · subst hPower
        rfl
      · have hOther : (d == '*') = false := beq_false_of_ne hPower
        rw [List.cons_append, ofSign?_asterisk (headFails_cons.mpr hOther),
          ofSign?_asterisk (headFails_cons.mpr hOther)]
        rfl
  · unfold ofSign?
    split
    · rfl
    · rfl
    · exact absurd rfl hAsterisk
    · split
      · simp_all
      · simp_all
      · simp_all
      · simp [Option.map_map, Function.comp_def]

/-- A token is read in front of a tail as it is read without it, and so is an error. -/
theorem next_append_tail (h : Apart (c :: rest) tail) (position : Nat) :
    next position c (rest ++ tail) =
      (next position c rest).map fun (t, after) => (t, after ++ tail) := by
  unfold next
  split
  · have hRead := read?_append_of_apart h (by simp)
    rw [List.cons_append] at hRead
    rw [hRead]
    cases Numeral.read? Numeral.isExpressionMark (c :: rest) with
    | none => rfl
    | some read => rfl
  · split
    · rfl
    · by_cases hLetter : isLetter c = true
      · have hFirst : isWordChar c = true := by simp_all [isWordChar]
        have hTail (hWhole : rest.dropWhile isWordChar = []) :=
          h.headFails_of_word hFirst hWhole
        obtain ⟨hTake, hDrop⟩ := takeWhile_append_tail (s := rest) fun hWhole =>
          (hTail hWhole).mono fun c hc => by simp [hc]
        have hWord := ofWord?_append_tail (c :: rest.takeWhile isWordChar) fun hWhole =>
          (hTail hWhole).mono fun c hc => by simp_all
        simp only [hLetter, if_true, hTake, hDrop, hWord]
        cases ofWord? (c :: rest.takeWhile isWordChar) (rest.dropWhile isWordChar) with
        | none => rfl
        | some found => rfl
      · have hPower : rest = [] → c = '*' → HeadFails (· == '*') tail :=
          fun hRest hAsterisk => h.power (by rw [hRest, hAsterisk]; rfl)
        simp only [hLetter, Bool.false_eq_true, if_false, ofSign?_append_tail hPower]
        cases ofSign? c rest with
        | none => rfl
        | some found => rfl

/-- Whether the text of a token may end with the character. -/
def endsIn : Token → Char → Bool
  | number _, c => Key.isDigitOrPoint c
  | operator _, c => (Operator.ofChar? c).isSome
  | function _, c | openParen, c => c == '('
  | bareFunction _, c | constant _, c => isLetter c
  | closeParen, c => c == ')'

theorem exists_last_of_ofWord? {word : Text}
    (h : ofWord? word rest = some (t, after)) :
    (rest = after ∧ ∀ c, isLetter c = true → t.endsIn c = true) ∨
      (rest = '(' :: after ∧ t.endsIn '(' = true) := by
  unfold ofWord? at h
  split at h
  · cases h
    exact .inl ⟨rfl, fun _ hc => hc⟩
  · split at h
    · cases h
      exact .inr ⟨rfl, rfl⟩
    · cases h
      exact .inl ⟨rfl, fun _ hc => hc⟩
    · cases h

theorem exists_last_of_ofSign? (h : ofSign? c rest = some (t, after)) :
    ∃ front last, c :: rest = front ++ last :: after ∧ t.endsIn last = true := by
  unfold ofSign? at h
  split at h
  · cases h
    exact ⟨[], '(', rfl, rfl⟩
  · cases h
    exact ⟨[], ')', rfl, rfl⟩
  · cases h
    exact ⟨['*'], '*', rfl, rfl⟩
  · obtain ⟨op, hOp, hFound⟩ := Option.map_eq_some_iff.mp h
    cases hFound
    exact ⟨[], c, rfl, by rw [endsIn, hOp]; rfl⟩

/-- What a token takes in ends with a character of its kind. -/
theorem Starts.exists_last (h : Starts c rest t after) :
    ∃ front last, c :: rest = front ++ last :: after ∧ t.endsIn last = true := by
  cases h with
  | number _ hRead =>
    exact (Numeral.leaves_of_read? hRead).exists_last (Numeral.length_lt_of_read? hRead)
  | pi hPi => exact ⟨[], c, rfl, by rw [hPi]; decide⟩
  | word hFirst hFound =>
    obtain ⟨front, last, hText, hLast⟩ := exists_last_of_word rest hFirst
    rcases exists_last_of_ofWord? hFound with ⟨hAfter, hEnds⟩ | ⟨hAfter, hEnds⟩
    · rw [isWordChar, Bool.and_eq_true] at hLast
      exact ⟨front, last, by rw [hText, hAfter], hEnds last hLast.1⟩
    · exact ⟨front ++ [last], '(', by rw [hText, hAfter]; simp, hEnds⟩
  | sign _ _ hFound => exact exists_last_of_ofSign? hFound

/-! ### Lists of tokens -/

/-- A text and a tail that stands apart are scanned one after the other; the first error in either
one is that of the whole. -/
theorem scanAt_append (h : Apart s tail) (position : Nat) :
    scanAt position (s ++ tail) =
      (scanAt position s).bind fun ts => (scanAt (position + s.length) tail).map (ts ++ ·) := by
  induction position, s using scanAt.induct with
  | case1 position =>
    have hStart : scanAt position [] = .ok [] := scans_nil position
    rw [hStart]
    simp only [List.nil_append, Except.bind, List.length_nil, Nat.add_zero]
    cases scanAt position tail with
    | error e => rfl
    | ok us => rfl
  | case2 position c rest hBlank ih =>
    have hLength : position + (c :: rest).length = position + 1 + rest.length := by
      rw [List.length_cons]
      omega
    rw [List.cons_append, scanAt_of_isBlank position hBlank, scanAt_of_isBlank position hBlank,
      hLength, ih (h.suffix [c])]
  | case3 position c rest hBlank e hNext =>
    have hTail := next_append_tail h position
    rw [hNext] at hTail
    rw [List.cons_append, scanAt_of_next_error hBlank hTail, scanAt_of_next_error hBlank hNext]
    rfl
  | case4 position c rest hBlank t after hNext hLength _ _ ih
  | case5 position c rest hBlank t after hNext hLength _ _ ih =>
    have hTail := next_append_tail h position
    rw [hNext] at hTail
    obtain ⟨front, last, hText, -⟩ := (next_eq_ok_iff.mp hNext).exists_last
    rw [hText, List.append_cons] at h
    have hStart : position + ((rest ++ tail).length + 1 - (after ++ tail).length) =
        position + (rest.length + 1 - after.length) := by
      simp only [List.length_append]
      omega
    have hEnd : position + (rest.length + 1 - after.length) + after.length =
        position + (c :: rest).length := by
      rw [List.length_cons]
      omega
    rw [List.cons_append, scanAt_of_next position hBlank hTail, hStart, ih (h.suffix _), hEnd,
      scanAt_of_next position hBlank hNext]
    cases scanAt (position + (rest.length + 1 - after.length)) after with
    | error e => rfl
    | ok ts =>
      simp only [Except.bind, Except.map]
      cases scanAt (position + (c :: rest).length) tail with
      | error e => rfl
      | ok us => rfl

theorem scan_append (h : Apart s tail) (hScan : scan s = .ok ts) (hTail : Scans tail us) :
    scan (s ++ tail) = .ok (ts ++ us) := by
  have hFirst : scanAt 0 s = .ok ts := hScan
  rw [scan, scanAt_append h, hFirst, Except.bind, hTail]
  rfl

/-- Unless the text ends with a blank, its last character belongs to its last token. -/
theorem exists_last_token (h : scanAt position s = .ok ts) (hLast : s.getLast? = some last)
    (hBlank : isBlank last = false) : ∃ t ∈ ts.getLast?, t.endsIn last = true := by
  induction position, s using scanAt.induct generalizing ts with
  | case1 position => cases hLast
  | case2 position c rest hFirst ih =>
    rw [scanAt_of_isBlank position hFirst] at h
    cases rest with
    | nil =>
      obtain rfl : c = last := Option.some.inj hLast
      rw [hFirst] at hBlank
      cases hBlank
    | cons d rest =>
      rw [List.getLast?_cons_cons] at hLast
      exact ih h hLast
  | case3 position c rest hFirst e hNext =>
    rw [scanAt_of_next_error hFirst hNext] at h
    cases h
  | case4 position c rest hFirst t after hNext _ e hRest ih =>
    rw [scanAt_of_next position hFirst hNext, hRest] at h
    cases h
  | case5 position c rest hFirst t after hNext _ ts' hRest ih =>
    rw [scanAt_of_next position hFirst hNext, hRest] at h
    cases h
    obtain ⟨front, last', hText, hEnds⟩ := (next_eq_ok_iff.mp hNext).exists_last
    cases after with
    | nil =>
      rw [scans_nil] at hRest
      cases hRest
      rw [hText, List.getLast?_concat, Option.some.injEq] at hLast
      exact ⟨t, rfl, hLast ▸ hEnds⟩
    | cons d after =>
      rw [hText, List.append_cons, List.getLast?_append_of_ne_nil _ (by simp)] at hLast
      obtain ⟨t', hMem, hEnds'⟩ := ih hRest hLast
      refine ⟨t', ?_, hEnds'⟩
      rw [List.getLast?_cons, Option.mem_def.mp hMem]
      rfl

end Token

end Calculator
