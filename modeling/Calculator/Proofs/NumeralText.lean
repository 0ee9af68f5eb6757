import Calculator.Display
import Calculator.Numeric.Numeral
import Calculator.Proofs.Decimal

/-! Numerals read back as the decimals that they spell: the plain text of a decimal and its text with
an exponent are read whole, whatever follows them, and give a decimal of the same value. -/

namespace Calculator

/-- The text does not start with a character of the kind. -/
def HeadFails (kind : Char → Bool) (s : Text) : Prop := ∀ c ∈ s.head?, kind c = false

theorem headFails_nil (kind : Char → Bool) : HeadFails kind [] := by simp [HeadFails]

@[simp] theorem headFails_cons {kind : Char → Bool} {c : Char} {s : Text} :
    HeadFails kind (c :: s) ↔ kind c = false := by simp [HeadFails]

theorem HeadFails.mono {kind kind' : Char → Bool} {s : Text} (h : HeadFails kind s)
    (hKind : ∀ c, kind' c = true → kind c = true) : HeadFails kind' s := by
  intro c hc
  have hFails := h c hc
  cases hHolds : kind' c with
  | false => rfl
  | true => rw [hKind c hHolds] at hFails; cases hFails

theorem HeadFails.append {kind : Char → Bool} {s rest : Text} (h : HeadFails kind s)
    (hRest : HeadFails kind rest) : HeadFails kind (s ++ rest) := by
  cases s with
  | nil => exact hRest
  | cons c s => exact headFails_cons.mpr (headFails_cons.mp h)

theorem takeWhile_append_of_headFails {kind : Char → Bool} {run rest : Text}
    (hRun : ∀ c ∈ run, kind c = true) (hRest : HeadFails kind rest) :
    (run ++ rest).takeWhile kind = run ∧ (run ++ rest).dropWhile kind = rest := by
  rw [List.takeWhile_append_of_pos hRun, List.dropWhile_append_of_pos hRun]
  cases rest with
  | nil => simp
  | cons c rest =>
    rw [headFails_cons] at hRest
    simp [hRest]

namespace Numeral

variable {mark : Char → Bool} {rest whole fraction : Text}

theorem readDigits_append_of_headFails {digits : Text} (hDigits : ∀ c ∈ digits, c.isDigit = true)
    (hRest : HeadFails Char.isDigit rest) : readDigits (digits ++ rest) = (digits, rest) := by
  obtain ⟨hTake, hDrop⟩ := takeWhile_append_of_headFails hDigits hRest
  rw [readDigits, hTake, hDrop]

theorem readDigits_toDigits (n : ℕ) (hRest : HeadFails Char.isDigit rest) :
    readDigits (Nat.toDigits 10 n ++ rest) = (Nat.toDigits 10 n, rest) :=
  readDigits_append_of_headFails
    (fun _ hc => Nat.isDigit_of_mem_toDigits (by decide) (by decide) hc) hRest

theorem readFraction_of_headFails (hRest : HeadFails (· == '.') rest) :
    readFraction rest = ([], rest) := by
  unfold readFraction
  split
  · simp at hRest
  · rfl

theorem readExponent_of_headFails (hRest : HeadFails mark rest) :
    readExponent mark rest = (0, rest) := by
  cases rest with
  | nil => rfl
  | cons c rest =>
    rw [headFails_cons] at hRest
    simp [readExponent, hRest]

theorem readSign_of_headFails (hRest : HeadFails (fun c => c == '-' || c == '+') rest) :
    readSign rest = (false, rest) := by
  unfold readSign
  split
  · simp at hRest
  · simp at hRest
  · rfl

theorem readSign_of_isDigit {c : Char} (h : c.isDigit = true) :
    readSign (c :: rest) = (false, c :: rest) := by
  apply readSign_of_headFails
  rw [headFails_cons, Bool.or_eq_false_iff, beq_eq_false_iff_ne, beq_eq_false_iff_ne]
  constructor
  · rintro rfl
    cases h
  · rintro rfl
    cases h

/-- A sign is read of the first character alone. -/
theorem readSign_append {s : Text} (tail : Text) (h : s ≠ []) :
    readSign (s ++ tail) = ((readSign s).1, (readSign s).2 ++ tail) := by
  cases s with
  | nil => exact absurd rfl h
  | cons c s =>
    by_cases hMinus : c = '-'
    · subst hMinus
      rfl
    · by_cases hPlus : c = '+'
      · subst hPlus
        rfl
      · simp [readSign, hMinus, hPlus]

theorem readSign_exponent (e : ℤ) (s : Text) :
    readSign ((if e < 0 then '-' else '+') :: s) = (decide (e < 0), s) := by
  by_cases h : e < 0
  · rw [if_pos h, decide_eq_true h]
    rfl
  · rw [if_neg h, decide_eq_false h]
    rfl

theorem readExponent_exponentText (e : ℤ) (hMark : mark 'e' = true)
    (hRest : HeadFails Char.isDigit rest) :
    readExponent mark (Display.exponentText e ++ rest) = (e, rest) := by
  have hDigits := readDigits_toDigits e.natAbs hRest
  simp only [Display.exponentText, List.cons_append, readExponent, hMark, if_true,
    readSign_exponent, hDigits, List.isEmpty_iff, Nat.toDigits_ne_nil, if_false,
    Nat.ofDigitChars_ten_toDigits, decide_eq_true_eq, Prod.mk.injEq, and_true]
  split
  · omega
  · omega

theorem read?_whole (mark : Char → Bool) (hWhole : ∀ c ∈ whole, c.isDigit = true) (hNonempty : whole ≠ [])
    (hDigit : HeadFails Char.isDigit rest) (hPoint : HeadFails (· == '.') rest) :
    read? mark (whole ++ rest) =
      some (⟨Nat.ofDigitChars 10 whole 0, (readExponent mark rest).1⟩,
        (readExponent mark rest).2) := by
  have hNone : (whole.isEmpty && ([] : Text).isEmpty) = false := by simp [hNonempty]
  simp only [read?, readDigits_append_of_headFails hWhole hDigit,
    readFraction_of_headFails hPoint, hNone, Bool.false_eq_true, if_false, List.append_nil,
    List.length_nil, Int.natCast_zero, Int.sub_zero]

theorem read?_fraction (mark : Char → Bool) (hWhole : ∀ c ∈ whole, c.isDigit = true)
    (hFraction : ∀ c ∈ fraction, c.isDigit = true) (hNonempty : ¬(whole = [] ∧ fraction = []))
    (hDigit : HeadFails Char.isDigit rest) :
    read? mark (whole ++ '.' :: (fraction ++ rest)) =
      some (⟨Nat.ofDigitChars 10 (whole ++ fraction) 0,
        (readExponent mark rest).1 - fraction.length⟩, (readExponent mark rest).2) := by
  have hPoint : HeadFails Char.isDigit ('.' :: (fraction ++ rest)) := by simp
  have hNone : (whole.isEmpty && fraction.isEmpty) = false := by simpa using hNonempty
  simp only [read?, readDigits_append_of_headFails hWhole hPoint, readFraction,
    readDigits_append_of_headFails hFraction hDigit, hNone, Bool.false_eq_true, if_false]

theorem exists_toDigits_eq_cons (n : ℕ) :
    ∃ c s, Nat.toDigits 10 n = c :: s ∧ c.isDigit = true ∧ ∀ c ∈ s, c.isDigit = true := by
  obtain ⟨c, s, hDigits⟩ := List.exists_cons_of_ne_nil (Nat.toDigits_ne_nil (n := n) (b := 10))
  have hAll : ∀ c' ∈ c :: s, c'.isDigit = true := by
    rw [← hDigits]
    exact fun _ hc => Nat.isDigit_of_mem_toDigits (by decide) (by decide) hc
  exact ⟨c, s, hDigits, hAll c List.mem_cons_self, fun c' hc => hAll c' (List.mem_cons_of_mem c hc)⟩

/-! ### Plain texts -/

theorem isDigit_of_mem_leftpad {n size : ℕ} {c : Char}
    (h : c ∈ (Nat.toDigits 10 n).leftpad size '0') : c.isDigit = true := by
  rw [List.leftpad, List.mem_append] at h
  rcases h with hPad | hDigit
  · rw [List.eq_of_mem_replicate hPad]
    rfl
  · exact Nat.isDigit_of_mem_toDigits (by decide) (by decide) hDigit

theorem length_leftpad_toDigits {n size : ℕ} (hSize : 0 < size) (h : n < 10 ^ size) :
    ((Nat.toDigits 10 n).leftpad size '0').length = size := by
  rw [List.length_leftpad]
  exact Nat.max_eq_left ((Nat.length_toDigits_le_iff (by decide) hSize).mpr h)

theorem ofDigitChars_leftpad (n size init : ℕ) :
    Nat.ofDigitChars 10 ((Nat.toDigits 10 n).leftpad size '0') init =
      10 ^ ((Nat.toDigits 10 n).leftpad size '0').length * init + n := by
  rw [Nat.ofDigitChars_eq_ofDigitChars_zero]
  congr 1
  rw [List.leftpad, Nat.ofDigitChars_append, Nat.ofDigitChars_replicate_zero, Nat.mul_zero,
    Nat.ofDigitChars_ten_toDigits]

/-- The plain text of a decimal reads as a decimal of the same value. -/
theorem exists_read?_plain (mark : Char → Bool) (d : Decimal)
    (hDigit : HeadFails Char.isDigit rest) (hPoint : HeadFails (· == '.') rest) (hMark : HeadFails mark rest) :
    ∃ d', read? mark (d.plain ++ rest) = some (d', rest) ∧ d'.value = d.value := by
  have hDigits (n : ℕ) : ∀ c ∈ Nat.toDigits 10 n, c.isDigit = true :=
    fun _ hc => Nat.isDigit_of_mem_toDigits (by decide) (by decide) hc
  obtain ⟨coefficient, exponent⟩ := d
  cases exponent with
  | ofNat e =>
    refine ⟨⟨coefficient * 10 ^ e, 0⟩, ?_, ?_⟩
    · have hRead := read?_whole mark (hDigits (coefficient * 10 ^ e))
        Nat.toDigits_ne_nil hDigit hPoint
      rw [readExponent_of_headFails hMark, Nat.ofDigitChars_ten_toDigits] at hRead
      exact hRead
    · rw [Decimal.value, Decimal.value]
      push_cast
      simp
  | negSucc e =>
    refine ⟨⟨coefficient, .negSucc e⟩, ?_, rfl⟩
    have hFraction : ∀ c ∈ (Nat.toDigits 10 (coefficient % 10 ^ (e + 1))).leftpad (e + 1) '0',
        c.isDigit = true := fun _ hc => isDigit_of_mem_leftpad hc
    have hRead := read?_fraction mark (hDigits (coefficient / 10 ^ (e + 1))) hFraction
      (fun hNone => Nat.toDigits_ne_nil hNone.1) hDigit
    have hLength := length_leftpad_toDigits (Nat.succ_pos e)
      (Nat.mod_lt coefficient (Nat.pow_pos (by decide) : 0 < 10 ^ (e + 1)))
    rw [readExponent_of_headFails hMark, Nat.ofDigitChars_append, Nat.ofDigitChars_ten_toDigits,
      ofDigitChars_leftpad, hLength, Nat.div_add_mod, Int.zero_sub,
      show -((e + 1 : ℕ) : ℤ) = Int.negSucc e from rfl] at hRead
    rw [Decimal.plain, List.append_assoc, List.cons_append]
    exact hRead

theorem exists_plain_eq_cons (d : Decimal) : ∃ c s, d.plain = c :: s ∧ c.isDigit = true := by
  obtain ⟨coefficient, exponent⟩ := d
  cases exponent with
  | ofNat e =>
    obtain ⟨c, s, hDigits, hFirst, -⟩ := exists_toDigits_eq_cons (coefficient * 10 ^ e)
    exact ⟨c, s, hDigits, hFirst⟩
  | negSucc e =>
    obtain ⟨c, s, hDigits, hFirst, -⟩ := exists_toDigits_eq_cons (coefficient / 10 ^ (e + 1))
    unfold Decimal.plain
    dsimp only
    rw [hDigits]
    exact ⟨c, _, rfl, hFirst⟩

theorem exists_mem_getLast?_append {s digits : Text} (hDigits : ∀ c ∈ digits, c.isDigit = true)
    (hNonempty : digits ≠ []) : ∃ c ∈ (s ++ digits).getLast?, c.isDigit = true := by
  refine ⟨digits.getLast hNonempty, ?_, hDigits _ (List.getLast_mem hNonempty)⟩
  rw [List.getLast?_append, List.getLast?_eq_some_getLast hNonempty]
  simp

theorem exists_mem_getLast?_plain (d : Decimal) : ∃ c ∈ d.plain.getLast?, c.isDigit = true := by
  obtain ⟨coefficient, exponent⟩ := d
  cases exponent with
  | ofNat e =>
    exact exists_mem_getLast?_append (s := [])
      (fun _ hc => Nat.isDigit_of_mem_toDigits (by decide) (by decide) hc) Nat.toDigits_ne_nil
  | negSucc e =>
    rw [Decimal.plain]
    dsimp only
    rw [List.append_cons]
    refine exists_mem_getLast?_append (fun _ hc => isDigit_of_mem_leftpad hc) ?_
    simp [List.leftpad, Nat.toDigits_ne_nil]

/-! ### Texts with an exponent -/

theorem exists_dropZeros_append (s : Text) :
    ∃ k, s = Display.dropZeros s ++ List.replicate k '0' := by
  have hZeros : (s.reverse.takeWhile (· == '0')) =
      List.replicate (s.reverse.takeWhile (· == '0')).length '0' :=
    List.eq_replicate_of_mem fun c hc => by
      simpa using List.all_eq_true.mp List.all_takeWhile c hc
  have hSplit : s = Display.dropZeros s ++ (s.reverse.takeWhile (· == '0')).reverse := by
    rw [Display.dropZeros, ← List.reverse_append, List.takeWhile_append_dropWhile,
      List.reverse_reverse]
  rw [hZeros, List.reverse_replicate] at hSplit
  exact ⟨_, hSplit⟩

theorem mem_of_mem_dropZeros {c : Char} {s : Text} (h : c ∈ Display.dropZeros s) : c ∈ s := by
  obtain ⟨k, hText⟩ := exists_dropZeros_append s
  rw [hText]
  exact List.mem_append_left _ h

theorem value_append_zeros (digits : Text) (k : ℕ) (e : ℤ) :
    (⟨Nat.ofDigitChars 10 digits 0, e + k⟩ : Decimal).value =
      (⟨Nat.ofDigitChars 10 (digits ++ List.replicate k '0') 0, e⟩ : Decimal).value := by
  rw [Nat.ofDigitChars_append, Nat.ofDigitChars_replicate_zero, Decimal.value, Decimal.value]
  dsimp only
  rw [zpow_add₀ (by norm_num), zpow_natCast]
  push_cast
  ring

/-- One digit, a fraction if there is one, and an exponent. -/
theorem read?_mantissa {first : Char} (e : ℤ) (hMark : mark 'e' = true)
    (hDigits : ∀ c ∈ first :: fraction, c.isDigit = true) (hRest : HeadFails Char.isDigit rest) :
    read? mark ((if fraction.isEmpty then [first] else first :: '.' :: fraction) ++
        (Display.exponentText e ++ rest)) =
      some (⟨Nat.ofDigitChars 10 (first :: fraction) 0, e - fraction.length⟩, rest) := by
  have hDigit : HeadFails Char.isDigit (Display.exponentText e ++ rest) := by
    simp [Display.exponentText]
  have hPoint : HeadFails (· == '.') (Display.exponentText e ++ rest) := by
    simp [Display.exponentText]
  have hFirst : ∀ c ∈ [first], c.isDigit = true := by
    intro c hc
    rw [List.mem_singleton.mp hc]
    exact hDigits first List.mem_cons_self
  have hExponent := readExponent_exponentText e hMark hRest
  cases fraction with
  | nil =>
    rw [List.isEmpty_nil, if_pos rfl, read?_whole mark hFirst (by simp) hDigit hPoint, hExponent]
    simp
  | cons c fraction =>
    have hFraction : ∀ d ∈ c :: fraction, d.isDigit = true :=
      fun d hd => hDigits d (List.mem_cons_of_mem first hd)
    have hRead := read?_fraction mark hFirst hFraction (by simp) hDigit
    rw [hExponent] at hRead
    rw [List.isEmpty_cons, if_neg Bool.false_ne_true]
    exact hRead

/-- The text with an exponent reads as a decimal of the same value. -/
theorem exists_read?_scientificText (mark : Char → Bool) (d : Decimal)
    (hMark : mark 'e' = true) (hRest : HeadFails Char.isDigit rest) :
    ∃ d', read? mark (Display.scientificText d ++ rest) = some (d', rest) ∧ d'.value = d.value := by
  obtain ⟨first, others, hDigits, hFirst, hOthers⟩ := exists_toDigits_eq_cons d.coefficient
  obtain ⟨k, hZeros⟩ := exists_dropZeros_append others
  have hCoefficient : d.coefficient =
      Nat.ofDigitChars 10 (first :: Display.dropZeros others ++ List.replicate k '0') 0 := by
    rw [List.cons_append, ← hZeros, ← hDigits, Nat.ofDigitChars_ten_toDigits]
  have hLength : others.length = (Display.dropZeros others).length + k := by
    simpa using congrArg List.length hZeros
  have hKept : ∀ c ∈ first :: Display.dropZeros others, c.isDigit = true := by
    rw [List.forall_mem_cons]
    exact ⟨hFirst, fun c hc => hOthers c (mem_of_mem_dropZeros hc)⟩
  refine ⟨⟨Nat.ofDigitChars 10 (first :: Display.dropZeros others) 0, d.exponent + k⟩, ?_, ?_⟩
  · rw [Display.scientificText, hDigits]
    dsimp only
    rw [List.append_assoc, read?_mantissa _ hMark hKept hRest, hLength]
    push_cast
    rw [← add_assoc, add_right_comm, add_sub_cancel_right]
  · rw [value_append_zeros, ← hCoefficient]

theorem exists_mem_getLast?_scientificText (d : Decimal) :
    ∃ c ∈ (Display.scientificText d).getLast?, c.isDigit = true := by
  obtain ⟨first, others, hDigits, -, -⟩ := exists_toDigits_eq_cons d.coefficient
  rw [Display.scientificText, hDigits]
  dsimp only
  rw [Display.exponentText, List.append_cons, List.append_cons]
  exact exists_mem_getLast?_append
    (fun _ hc => Nat.isDigit_of_mem_toDigits (by decide) (by decide) hc) Nat.toDigits_ne_nil

theorem exists_scientificText_eq_cons (d : Decimal) :
    ∃ c s, Display.scientificText d = c :: s ∧ c.isDigit = true := by
  obtain ⟨first, others, hDigits, hFirst, -⟩ := exists_toDigits_eq_cons d.coefficient
  rw [Display.scientificText, hDigits]
  dsimp only
  split
  · exact ⟨first, _, rfl, hFirst⟩
  · exact ⟨first, _, rfl, hFirst⟩

end Numeral

end Calculator
