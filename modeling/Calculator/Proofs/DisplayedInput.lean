import Calculator.Proofs.SessionSteps
import Calculator.Proofs.TokenBoundary

/-! The buffer as it is displayed, with `×` and `÷` for its asterisks and slashes. The scanner reads
a display sign like the ASCII sign of the same operator, so the displayed text has the tokens of the
buffer, and an error in the same place. Only a power that is spelled by two asterisks is displayed
as two products. -/

namespace Calculator

namespace Buffer

variable {kind : Char → Bool} {s : Text} {c : Char}

/-- The character that is displayed for a character of the buffer. -/
def shown (c : Char) : Char := if c = '*' then '×' else if c = '/' then '÷' else c

@[simp] theorem display_nil : display [] = [] := rfl

@[simp] theorem display_cons (c : Char) (s : Text) : display (c :: s) = shown c :: display s := rfl

@[simp] theorem display_append (s t : Text) : display (s ++ t) = display s ++ display t :=
  List.map_append

@[simp] theorem length_display (s : Text) : (display s).length = s.length := List.length_map _

theorem shown_of_ne (hAsterisk : c ≠ '*') (hSlash : c ≠ '/') : shown c = c := by
  rw [shown, if_neg hAsterisk, if_neg hSlash]

/-- No sign of a product or a quotient is of the kind. -/
def OmitsSigns (kind : Char → Bool) : Prop := ∀ c ∈ ['*', '/', '×', '÷'], kind c = false

-- The characters of the list are looked at, not all characters there are.
instance : DecidablePred OmitsSigns := fun kind =>
  List.decidableBAll (fun c => kind c = false) ['*', '/', '×', '÷']

theorem OmitsSigns.shown_eq (h : OmitsSigns kind) (hKind : kind c = true) : shown c = c := by
  apply shown_of_ne
  · rintro rfl
    rw [h '*' (by decide)] at hKind
    cases hKind
  · rintro rfl
    rw [h '/' (by decide)] at hKind
    cases hKind

theorem OmitsSigns.kind_shown (h : OmitsSigns kind) (c : Char) : kind (shown c) = kind c := by
  by_cases hAsterisk : c = '*'
  · subst hAsterisk
    exact (h '×' (by decide)).trans (h '*' (by decide)).symm
  · by_cases hSlash : c = '/'
    · subst hSlash
      exact (h '÷' (by decide)).trans (h '/' (by decide)).symm
    · rw [shown_of_ne hAsterisk hSlash]

theorem OmitsSigns.takeWhile_display (h : OmitsSigns kind) (s : Text) :
    (display s).takeWhile kind = s.takeWhile kind := by
  induction s with
  | nil => rfl
  | cons c s ih =>
    rw [display_cons, List.takeWhile_cons, List.takeWhile_cons, h.kind_shown, ih]
    split
    · rename_i hKind
      rw [h.shown_eq hKind]
    · rfl

theorem OmitsSigns.dropWhile_display (h : OmitsSigns kind) (s : Text) :
    (display s).dropWhile kind = display (s.dropWhile kind) := by
  induction s with
  | nil => rfl
  | cons c s ih =>
    rw [display_cons, List.dropWhile_cons, List.dropWhile_cons, h.kind_shown, ih]
    split
    · rfl
    · rfl

end Buffer

open Buffer (display shown OmitsSigns display_cons shown_of_ne length_display)

/-! ### Numerals -/

namespace Numeral

variable {mark : Char → Bool}

theorem readDigits_display (s : Text) :
    readDigits (display s) = ((readDigits s).1, display (readDigits s).2) := by
  have hDigit : OmitsSigns Char.isDigit := by decide
  rw [readDigits, hDigit.takeWhile_display, hDigit.dropWhile_display]
  rfl

theorem readFraction_display (s : Text) :
    readFraction (display s) = ((readFraction s).1, display (readFraction s).2) := by
  cases s with
  | nil => rfl
  | cons c s =>
    by_cases hPoint : c = '.'
    · subst hPoint
      exact readDigits_display s
    · have hKind : OmitsSigns (· == '.') := by decide
      have hFirst : (c == '.') = false := beq_false_of_ne hPoint
      have hShown : (shown c == '.') = false := (hKind.kind_shown c).trans hFirst
      rw [display_cons, readFraction_of_headFails (headFails_cons.mpr hShown),
        readFraction_of_headFails (headFails_cons.mpr hFirst)]
      rfl

theorem readSign_of_ne {c : Char} (rest : Text) (hPlus : c ≠ '+') (hMinus : c ≠ '-') :
    readSign (c :: rest) = (false, c :: rest) := by
  simp [readSign, hPlus, hMinus]

theorem readSign_display (s : Text) :
    readSign (display s) = ((readSign s).1, display (readSign s).2) := by
  cases s with
  | nil => rfl
  | cons c s =>
    by_cases hPlus : c = '+'
    · subst hPlus
      rfl
    · by_cases hMinus : c = '-'
      · subst hMinus
        rfl
      · have hKind : OmitsSigns fun c => c == '+' || c == '-' := by decide
        have hShown : (shown c == '+' || shown c == '-') = false := by
          rw [hKind.kind_shown c, beq_false_of_ne hPlus, beq_false_of_ne hMinus]
          rfl
        rw [Bool.or_eq_false_iff, beq_eq_false_iff_ne, beq_eq_false_iff_ne] at hShown
        rw [display_cons, readSign_of_ne _ hShown.1 hShown.2, readSign_of_ne _ hPlus hMinus]
        rfl

theorem readExponent_display (hMark : OmitsSigns mark) (s : Text) :
    readExponent mark (display s) = ((readExponent mark s).1, display (readExponent mark s).2) := by
  cases s with
  | nil => rfl
  | cons c s =>
    simp only [display_cons, readExponent, hMark.kind_shown, readSign_display, readDigits_display]
    split
    · split
      · rfl
      · rfl
    · rfl

/-- A numeral is read from the displayed text as from the text. -/
theorem read?_display (hMark : OmitsSigns mark) (s : Text) :
    read? mark (display s) = (read? mark s).map fun (d, after) => (d, display after) := by
  simp only [read?, readDigits_display, readFraction_display, readExponent_display hMark]
  split
  · rfl
  · rfl

end Numeral

/-! ### Tokens -/

namespace Token

variable {position : Nat} {c : Char} {s rest after : Text} {t : Token}

theorem ofWord?_display (word rest : Text) :
    ofWord? word (display rest) = (ofWord? word rest).map fun (t, after) => (t, display after) := by
  cases hConstant : Constant.ofName? word with
  | some k => simp [ofWord?, hConstant]
  | none =>
    cases hFunc : Func.ofName? word with
    | none => simp [ofWord?, hConstant, hFunc]
    | some f =>
      cases rest with
      | nil => simp [ofWord?, hConstant, hFunc]
      | cons c rest =>
        by_cases hOpener : c = '('
        · subst hOpener
          have hShown : shown '(' = '(' := rfl
          simp [ofWord?, hConstant, hFunc, hShown]
        · have hKind : OmitsSigns (· == '(') := by decide
          have hFirst : (c == '(') = false := beq_false_of_ne hOpener
          have hShown : (shown c == '(') = false := (hKind.kind_shown c).trans hFirst
          rw [display_cons, ofWord?_bareFunction hConstant hFunc (headFails_cons.mpr hShown),
            ofWord?_bareFunction hConstant hFunc (headFails_cons.mpr hFirst)]
          rfl

theorem ofSign?_display (hAsterisk : c ≠ '*') (rest : Text) :
    ofSign? c (display rest) = (ofSign? c rest).map fun (t, after) => (t, display after) := by
  unfold ofSign?
  split
  · rfl
  · rfl
  · exact absurd rfl hAsterisk
  · split
    · simp_all
    · simp_all
    · simp_all
    · simp [Option.map_map, Function.comp_def]

/-- A character other than the signs of a product or a quotient starts the same token in the
displayed text. -/
theorem next_display_of_ne (position : Nat) (rest : Text) (hAsterisk : c ≠ '*')
    (hSlash : c ≠ '/') :
    next position c (display rest) =
      (next position c rest).map fun (t, after) => (t, display after) := by
  unfold next
  split
  · have hMark : OmitsSigns Numeral.isExpressionMark := by decide
    have hRead := Numeral.read?_display hMark (c :: rest)
    rw [display_cons, shown_of_ne hAsterisk hSlash] at hRead
    rw [hRead]
    cases Numeral.read? Numeral.isExpressionMark (c :: rest) with
    | none => rfl
    | some read => rfl
  · split
    · rfl
    · have hWord : OmitsSigns isWordChar := by decide +kernel
      dsimp only
      rw [hWord.takeWhile_display, hWord.dropWhile_display, ofWord?_display,
        ofSign?_display hAsterisk]
      by_cases hLetter : isLetter c = true
      · rw [if_pos hLetter, if_pos hLetter]
        cases ofWord? (c :: rest.takeWhile isWordChar) (rest.dropWhile isWordChar) with
        | none => rfl
        | some found => rfl
      · rw [if_neg hLetter, if_neg hLetter]
        cases ofSign? c rest with
        | none => rfl
        | some found => rfl

theorem next_asterisk (position : Nat) (h : HeadFails (· == '*') rest) :
    next position '*' rest = .ok (.operator .mul, rest) :=
  next_eq_ok_iff.mpr (.sign (by decide) (by decide) (ofSign?_asterisk h))

theorem next_slash (position : Nat) (rest : Text) :
    next position '/' rest = .ok (.operator .div, rest) :=
  next_eq_ok_iff.mpr (.sign (by decide) (by decide) rfl)

theorem next_times (position : Nat) (rest : Text) :
    next position '×' rest = .ok (.operator .mul, rest) :=
  next_eq_ok_iff.mpr (.sign (by decide +kernel) (by decide) rfl)

theorem next_obelus (position : Nat) (rest : Text) :
    next position '÷' rest = .ok (.operator .div, rest) :=
  next_eq_ok_iff.mpr (.sign (by decide +kernel) (by decide) rfl)

theorem next_power (position : Nat) (rest : Text) :
    next position '*' ('*' :: rest) = .ok (.operator .pow, rest) :=
  next_eq_ok_iff.mpr (.sign (by decide) (by decide) rfl)

/-- The displayed text starts with the token of the text, unless that is a power of two asterisks.
-/
theorem next_display (position : Nat) (hPower : c = '*' → HeadFails (· == '*') rest) :
    next position (shown c) (display rest) =
      (next position c rest).map fun (t, after) => (t, display after) := by
  by_cases hAsterisk : c = '*'
  · subst hAsterisk
    rw [next_asterisk position (hPower rfl)]
    exact next_times position (display rest)
  · by_cases hSlash : c = '/'
    · subst hSlash
      rw [next_slash]
      exact next_obelus position (display rest)
    · rw [shown_of_ne hAsterisk hSlash]
      exact next_display_of_ne position rest hAsterisk hSlash

/-! ### Lists of tokens -/

theorem headFails_of_noPower (h : ¬['*', '*'] <:+: c :: rest) (hFirst : c = '*') :
    HeadFails (· == '*') rest := by
  cases rest with
  | nil => exact headFails_nil _
  | cons d rest =>
    apply headFails_cons.mpr
    apply beq_false_of_ne
    rintro rfl
    subst hFirst
    exact h ⟨[], rest, rfl⟩

theorem not_isBlank_shown (h : ¬isBlank c = true) : ¬isBlank (shown c) = true := by
  have hKind : OmitsSigns isBlank := by decide
  rwa [hKind.kind_shown]

/-- Without two asterisks in a row, the displayed text has the tokens of the text or the same error.
-/
theorem scanAt_display_of_noPower (position : Nat) (h : ¬['*', '*'] <:+: s) :
    scanAt position (display s) = scanAt position s := by
  induction position, s using scanAt.induct with
  | case1 position => rfl
  | case2 position c rest hBlank ih =>
    have hRest : ¬['*', '*'] <:+: rest := fun hInfix => h (List.infix_cons hInfix)
    have hKind : OmitsSigns isBlank := by decide
    rw [display_cons, scanAt_of_isBlank position (by rw [hKind.kind_shown, hBlank]),
      scanAt_of_isBlank position hBlank, ih hRest]
  | case3 position c rest hBlank e hNext =>
    have hShown := next_display position (headFails_of_noPower h)
    rw [hNext] at hShown
    rw [display_cons, scanAt_of_next_error (not_isBlank_shown hBlank) hShown,
      scanAt_of_next_error hBlank hNext]
  | case4 position c rest hBlank t after hNext _ _ _ ih
  | case5 position c rest hBlank t after hNext _ _ _ ih =>
    have hShown := next_display position (headFails_of_noPower h)
    rw [hNext] at hShown
    obtain ⟨front, last, hText, -⟩ := (next_eq_ok_iff.mp hNext).exists_last
    have hAfter : after <:+ c :: rest := by
      rw [hText, List.append_cons]
      exact List.suffix_append _ _
    rw [display_cons, scanAt_of_next position (not_isBlank_shown hBlank) hShown, length_display,
      length_display, ih fun hInfix => h (hInfix.trans hAfter.isInfix),
      scanAt_of_next position hBlank hNext]

/-- The first of two asterisks in a row stands behind a text without any such two. -/
theorem exists_first_power (h : ['*', '*'] <:+: s) :
    ∃ before after, s = before ++ '*' :: '*' :: after ∧ ¬['*', '*'] <:+: before ++ ['*'] := by
  induction s with
  | nil => simp at h
  | cons c s ih =>
    by_cases hHere : ['*', '*'] <+: c :: s
    · obtain ⟨after, hText⟩ := hHere
      exact ⟨[], after, hText.symm, by decide⟩
    · rcases List.infix_cons_iff.mp h with hPrefix | hLater
      · exact absurd hPrefix hHere
      · obtain ⟨before, after, rfl, hNone⟩ := ih hLater
        refine ⟨c :: before, after, rfl, fun hInfix => ?_⟩
        rcases List.infix_cons_iff.mp hInfix with hPrefix | hRest
        · apply hHere
          exact hPrefix.trans ⟨'*' :: after, by simp⟩
        · exact hNone hRest

theorem scanAt_power (position : Nat) (rest : Text) :
    scanAt position ('*' :: '*' :: rest) =
      (scanAt (position + 2) rest).map (.operator .pow :: ·) := by
  rw [scanAt_of_next position (by decide) (next_power position rest), List.length_cons,
    show rest.length + 1 + 1 - rest.length = 2 by omega]

theorem scanAt_two_products (position : Nat) (rest : Text) :
    scanAt position ('×' :: '×' :: rest) =
      (scanAt (position + 2) rest).map fun ts => .operator .mul :: .operator .mul :: ts := by
  rw [scanAt_of_next position (by decide) (next_times position ('×' :: rest)),
    scanAt_of_next _ (by decide) (next_times _ rest), List.length_cons,
    show position + (rest.length + 1 + 1 - (rest.length + 1)) + (rest.length + 1 - rest.length) =
      position + 2 by omega]
  cases scanAt (position + 2) rest with
  | error e => rfl
  | ok ts => rfl

theorem apart_times (s rest : Text) : Apart s ('×' :: rest) :=
  apart_cons rest (by decide +kernel) (by decide) (by decide) fun _ => by decide

/-- The displayed text has the error of the text, or it has as many tokens at least, and more of
them if two asterisks stand in a row. -/
theorem scanAt_display (position : Nat) (s : Text) :
    (∃ e, scanAt position s = .error e ∧ scanAt position (display s) = .error e) ∨
    ∃ ts us, scanAt position s = .ok ts ∧ scanAt position (display s) = .ok us ∧
      ts.length ≤ us.length ∧ (['*', '*'] <:+: s → ts.length < us.length) := by
  induction hLength : s.length using Nat.strong_induction_on generalizing position s with
  | _ n ih =>
  by_cases hPower : ['*', '*'] <:+: s
  · obtain ⟨before, after, rfl, hNone⟩ := exists_first_power hPower
    have hBefore : ¬['*', '*'] <:+: before := fun hInfix =>
      hNone (hInfix.trans (List.prefix_append before ['*']).isInfix)
    have hLast : before.getLast? ≠ some '*' := by
      intro hLast
      obtain ⟨front, rfl⟩ := List.getLast?_eq_some_iff.mp hLast
      exact hNone ⟨front, [], by simp⟩
    have hText := scanAt_append (apart_asterisk ('*' :: after) hLast) position
    have hShown := scanAt_append (apart_times (display before) ('×' :: display after)) position
    rw [scanAt_power] at hText
    rw [scanAt_display_of_noPower position hBefore, length_display, scanAt_two_products] at hShown
    rw [Buffer.display_append, display_cons, display_cons, show shown '*' = '×' from rfl, hText,
      hShown]
    cases scanAt position before with
    | error e => exact .inl ⟨e, rfl, rfl⟩
    | ok ts =>
      have hShorter : after.length < n := by
        rw [← hLength, List.length_append]
        simp only [List.length_cons]
        omega
      rcases ih _ hShorter (position + before.length + 2) after rfl with
        ⟨e, hError, hError'⟩ | ⟨us, us', hOk, hOk', hSize, -⟩
      · rw [hError, hError']
        exact .inl ⟨e, rfl, rfl⟩
      · rw [hOk, hOk']
        refine .inr ⟨_, _, rfl, rfl, ?_, fun _ => ?_⟩
        · simp only [List.length_append, List.length_cons]
          omega
        · simp only [List.length_append, List.length_cons]
          omega
  · rw [scanAt_display_of_noPower position hPower]
    cases scanAt position s with
    | error e => exact .inl ⟨e, rfl, rfl⟩
    | ok ts => exact .inr ⟨ts, ts, rfl, rfl, Nat.le_refl _, fun hInfix => absurd hInfix hPower⟩

end Token

namespace Session

/-- The displayed buffer has the tokens of the buffer, or the same error, unless the buffer has
tokens and spells a power by two asterisks: these are displayed as two products. -/
theorem scan_displayInput_iff (s : Session) :
    Token.scan s.displayInput = Token.scan s.input ↔
      (∃ e, Token.scan s.input = .error e) ∨ ¬['*', '*'] <:+: s.input := by
  rw [displayInput, Token.scan, Token.scan]
  rcases Token.scanAt_display 0 s.input with
    ⟨e, hError, hError'⟩ | ⟨ts, us, hOk, hOk', -, hMore⟩
  · rw [hError, hError']
    exact iff_of_true rfl (.inl ⟨e, rfl⟩)
  · constructor
    · intro hSame
      right
      intro hPower
      rw [hOk, hOk'] at hSame
      cases hSame
      exact absurd (hMore hPower) (Nat.lt_irrefl _)
    · rintro (⟨e, hError⟩ | hNone)
      · rw [hOk] at hError
        cases hError
      · exact Token.scanAt_display_of_noPower 0 hNone

/-- The displayed text of a loaded `2**3` is no expression. -/
theorem not_scan_displayInput :
    ¬ ∀ s : Session, Reachable s → Token.scan s.displayInput = Token.scan s.input := by
  intro h
  have hScan := h (new.load "2**3".toList) (Reachable.new.load _)
  revert hScan
  decide +kernel

end Session

end Calculator
