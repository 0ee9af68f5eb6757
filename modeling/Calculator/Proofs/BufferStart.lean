import Calculator.Proofs.Freshness
import Calculator.Proofs.TypedOperand

/-! How the buffer starts. While the buttons are pressed it starts with an operand, behind at most
one minus, and every button keeps it so but one: deleting a function name behind a minus leaves the
minus alone, and from a lone minus the sign button makes an empty buffer. -/

namespace Calculator

namespace Buffer

variable {input operand kept tail : Text} {c : Char}

/-- The text starts with a character other than an operator, behind at most one minus. -/
inductive Begun : Text → Prop
  | plain {c : Char} {s : Text} : isOperator c = false → Begun (c :: s)
  | minus {c : Char} {s : Text} : isOperator c = false → Begun ('-' :: c :: s)

theorem begun_start : Begun start := .plain (by decide)

namespace Begun

theorem append (h : Begun input) (tail : Text) : Begun (input ++ tail) := by
  cases h with
  | plain hFirst => exact .plain hFirst
  | minus hFirst => exact .minus hFirst

theorem ne_nil (h : Begun input) : input ≠ [] := by
  cases h with
  | plain _ => simp
  | minus _ => simp

theorem ne_minus (h : Begun input) : input ≠ ['-'] := by
  rintro rfl
  cases h with
  | plain hFirst => exact absurd hFirst (by decide)

theorem exists_mem (h : Begun input) : ∃ c ∈ input, isOperator c = false := by
  cases h with
  | plain hFirst => exact ⟨_, List.mem_cons_self, hFirst⟩
  | minus hFirst => exact ⟨_, List.mem_cons_of_mem _ List.mem_cons_self, hFirst⟩

/-- What is kept of the front starts the same way, unless nothing or only the minus is kept. -/
theorem of_append (h : Begun (kept ++ tail)) (hNil : kept ≠ []) (hMinus : kept ≠ ['-']) :
    Begun kept := by
  match kept, hNil, hMinus with
  | [c], _, hMinus =>
    cases h with
    | plain hFirst => exact .plain hFirst
    | minus _ => exact absurd rfl hMinus
  | c :: d :: kept, _, _ =>
    cases h with
    | plain hFirst => exact .plain hFirst
    | minus hFirst => exact .minus hFirst

/-- Operators are taken off the end without an effect on the start. -/
theorem of_append_operators (h : Begun (kept ++ tail)) (hTail : ∀ c ∈ tail, isOperator c = true) :
    Begun kept := by
  obtain ⟨c, hMem, hOperand⟩ := h.exists_mem
  have hKept : c ∈ kept := by
    rcases List.mem_append.mp hMem with hKept | hDropped
    · exact hKept
    · rw [hTail c hDropped] at hOperand
      cases hOperand
  apply h.of_append
  · rintro rfl
    cases hKept
  · rintro rfl
    obtain rfl := List.mem_singleton.mp hKept
    exact absurd hOperand (by decide)

end Begun

theorem begun_signed (negative : Bool) {s : Text} (h : isOperator c = false) :
    Begun (Binary64.signed negative (c :: s)) := by
  cases negative with
  | false => exact .plain h
  | true => exact .minus h

theorem begun_text (x : Binary64) : Begun (Display.text x) := by
  cases x with
  | nan signaling => exact .plain (by decide)
  | infinite negative => exact begun_signed negative (by decide)
  | finite negative m =>
    rw [Display.text]
    split
    · exact .plain (by decide)
    · obtain ⟨c, s, hText, hDigit⟩ := Display.exists_magnitudeText_eq_cons m
      rw [hText]
      exact begun_signed negative (isOperator_of_isDigit hDigit)

theorem begun_raw (x : Binary64) : Begun x.raw := by
  cases x with
  | nan signaling => exact .plain (by decide)
  | infinite negative => exact begun_signed negative (by decide)
  | finite negative m =>
    obtain ⟨c, s, hText, hDigit⟩ := Numeral.exists_plain_eq_cons m.shortest
    rw [Binary64.raw, hText]
    exact begun_signed negative (isOperator_of_isDigit hDigit)

theorem begun_opener (f : Func) : Begun f.opener := by cases f <;> exact .plain (by decide)

theorem begun_symbol (c : Constant) : Begun c.symbol := by cases c <;> exact .plain (by decide)

/-! ### Typing -/

theorem isOperator_of_isDigitOrPoint (h : Key.isDigitOrPoint c = true) : isOperator c = false := by
  rw [Key.isDigitOrPoint, Bool.or_eq_true, beq_iff_eq] at h
  rcases h with hDigit | rfl
  · exact isOperator_of_isDigit hDigit
  · decide

theorem eq_of_typeDigit? {typed : Text} (h : typeDigit? input c = some typed) :
    typed = input ++ [c] ∨ typed = [c] ∨ typed = ['-', c] := by
  unfold typeDigit? at h
  split at h
  · split at h
    · cases h
    · cases h
      exact .inl rfl
  · split at h
    · cases h
      exact .inr (.inl rfl)
    · split at h
      · cases h
        exact .inr (.inr rfl)
      · cases h
        exact .inl rfl

theorem typeDigit?_ne_nil {typed : Text} (h : typeDigit? input c = some typed) : typed ≠ [] := by
  rcases eq_of_typeDigit? h with rfl | rfl | rfl
  · simp
  · simp
  · simp

theorem Begun.typeDigit? {typed : Text} (h : Begun input) (hDigit : Key.isDigitOrPoint c = true)
    (hTyped : typeDigit? input c = some typed) : Begun typed := by
  have hFirst := isOperator_of_isDigitOrPoint hDigit
  rcases eq_of_typeDigit? hTyped with rfl | rfl | rfl
  · exact h.append _
  · exact .plain hFirst
  · exact .minus hFirst

theorem isOperator_of_takesSign (h : takesSign c = true) : isOperator c = true := by
  simp only [takesSign, Bool.or_eq_true, beq_iff_eq] at h
  obtain ((rfl | rfl) | rfl) | rfl := h
  · decide
  · decide
  · decide
  · decide

theorem isOperator_symbol (op : Operator) : isOperator op.symbol = true := by cases op <;> decide

/-- Operators are typed in place of some operators at the end, and never leave nothing. -/
theorem exists_typeOperatorReversed_eq (op : Operator) (s : Text) :
    ∃ dropped kept added, s = dropped ++ kept ∧ (∀ c ∈ dropped, isOperator c = true) ∧
      typeOperatorReversed op s = added ++ kept ∧ (∀ c ∈ added, isOperator c = true) ∧
      added ++ kept ≠ [] := by
  have hAdded : ∀ c ∈ [op.symbol], isOperator c = true := by simpa using isOperator_symbol op
  unfold typeOperatorReversed
  split
  · rename_i before rest
    split
    · rename_i hBefore
      split
      · exact ⟨[], '-' :: before :: rest, [], rfl, by simp, rfl, by simp, by simp⟩
      · -- The minus is the sign of an operand, so it goes together with the operator before it.
        refine ⟨['-', before], rest, [op.symbol], rfl, ?_, rfl, hAdded, by simp⟩
        simpa using ⟨by decide, isOperator_of_takesSign hBefore⟩
    · refine ⟨['-'], before :: rest, [op.symbol], rfl, ?_, rfl, hAdded, by simp⟩
      simpa using (by decide : isOperator '-' = true)
  · rename_i last rest _
    split
    · exact ⟨[], last :: rest, [op.symbol], rfl, by simp, rfl, hAdded, by simp⟩
    · split
      · rename_i hLast
        exact ⟨[last], rest, [op.symbol], rfl, by simpa using hLast, rfl, hAdded, by simp⟩
      · exact ⟨[], last :: rest, [op.symbol], rfl, by simp, rfl, hAdded, by simp⟩
  · exact ⟨[], [], [op.symbol], rfl, by simp, rfl, hAdded, by simp⟩

/-- The same of the buffer from its front. -/
theorem exists_typeOperator_eq (op : Operator) (input : Text) :
    ∃ kept dropped added, input = kept ++ dropped ∧ (∀ c ∈ dropped, isOperator c = true) ∧
      typeOperator input op = kept ++ added ∧ (∀ c ∈ added, isOperator c = true) ∧
      kept ++ added ≠ [] := by
  obtain ⟨dropped, kept, added, hInput, hDropped, hTyped, hAdded, hNonempty⟩ :=
    exists_typeOperatorReversed_eq op input.reverse
  refine ⟨kept.reverse, dropped.reverse, added.reverse, ?_, by simpa using hDropped, ?_,
    by simpa using hAdded, ?_⟩
  · rw [← List.reverse_append, ← hInput, List.reverse_reverse]
  · rw [typeOperator, hTyped, List.reverse_append]
  · rw [← List.reverse_append]
    exact mt List.reverse_eq_nil_iff.mp hNonempty

theorem typeOperator_ne_nil (op : Operator) (input : Text) : typeOperator input op ≠ [] := by
  obtain ⟨kept, dropped, added, -, -, hTyped, -, hNonempty⟩ := exists_typeOperator_eq op input
  rwa [hTyped]

theorem Begun.typeOperator (h : Begun input) (op : Operator) : Begun (typeOperator input op) := by
  obtain ⟨kept, dropped, added, rfl, hDropped, hTyped, -⟩ := exists_typeOperator_eq op input
  rw [hTyped]
  exact (h.of_append_operators hDropped).append _

theorem typeFunction_ne_nil (input : Text) (f : Func) : typeFunction input f ≠ [] := by
  simp [typeFunction, Func.opener]

theorem Begun.typeFunction (h : Begun input) (f : Func) : Begun (typeFunction input f) := by
  rw [Buffer.typeFunction, withoutZero]
  split
  · exact begun_opener f
  · exact h.append _

theorem typeParen_ne_nil (input : Text) (c : Char) : typeParen input c ≠ [] := by simp [typeParen]

theorem Begun.typeParen (h : Begun input) (hFirst : isOperator c = false) :
    Begun (typeParen input c) := by
  rw [Buffer.typeParen, withoutZero]
  split
  · split
    · exact .plain hFirst
    · exact h.append _
  · exact h.append _

theorem placeOperand_eq (input operand : Text) :
    placeOperand input operand = operand ∨ placeOperand input operand = input ++ operand ∨
      placeOperand input operand = input ++ '*' :: operand := by
  unfold placeOperand
  split
  · exact .inl rfl
  · split
    · split
      · exact .inr (.inl rfl)
      · exact .inr (.inr rfl)
    · rename_i hNone
      rw [List.getLast?_eq_none_iff.mp hNone]
      exact .inr (.inr rfl)

theorem placeOperand_ne_nil (input : Text) (h : operand ≠ []) :
    placeOperand input operand ≠ [] := by
  rcases placeOperand_eq input operand with hPlaced | hPlaced | hPlaced
  · rwa [hPlaced]
  · simp [hPlaced, h]
  · simp [hPlaced]

theorem Begun.placeOperand (h : Begun input) (hOperand : Begun operand) :
    Begun (placeOperand input operand) := by
  rcases placeOperand_eq input operand with hPlaced | hPlaced | hPlaced
  · rwa [hPlaced]
  · rw [hPlaced]
    exact h.append _
  · rw [hPlaced]
    exact h.append _

/-! ### The sign and deleting -/

theorem toggleSign_eq_nil_iff : toggleSign input = [] ↔ input = ['-'] := by
  unfold toggleSign
  split
  · simp
  · rename_i hSign
    constructor
    · intro h
      cases h
    · rintro rfl
      exact absurd rfl (hSign [])

theorem Begun.toggleSign (h : Begun input) : Begun (toggleSign input) := by
  cases h with
  | minus hFirst => exact .plain hFirst
  | @plain c s hFirst =>
    have hSign : c ≠ '-' := by
      rintro rfl
      exact absurd hFirst (by decide)
    have hToggled : Buffer.toggleSign (c :: s) = '-' :: c :: s := by
      unfold Buffer.toggleSign
      split
      · rename_i hText
        exact absurd (List.cons.inj hText).1 hSign
      · rfl
    rw [hToggled]
    exact .minus hFirst

theorem exists_eq_append_opener {n : ℕ} (h : openerLength? input = some n) :
    ∃ f kept, input = kept ++ Func.opener f ∧ input.take (input.length - n) = kept := by
  have hMem := List.max?_mem h
  simp only [List.mem_map, List.mem_filter] at hMem
  obtain ⟨f, ⟨-, hEnds⟩, rfl⟩ := hMem
  obtain ⟨kept, rfl⟩ := List.isSuffixOf_iff_suffix.mp hEnds
  refine ⟨f, kept, rfl, ?_⟩
  rw [List.length_append, Nat.add_sub_cancel, List.take_left]

theorem exists_eq_dropEnd_append (input : Text) : ∃ tail, input = dropEnd input ++ tail := by
  unfold dropEnd
  split
  · exact ⟨_, (List.take_append_drop _ _).symm⟩
  · split
    · exact ⟨input, rfl⟩
    · obtain ⟨tail, hText⟩ := List.dropLast_prefix input
      exact ⟨tail, hText.symm⟩

/-- A lone minus is left only of a minus and a function name. -/
theorem exists_opener_of_dropEnd (h : dropEnd input = ['-']) :
    ∃ f, input = '-' :: Func.opener f := by
  unfold dropEnd at h
  split at h
  · rename_i n hLength
    obtain ⟨f, kept, hText, hKept⟩ := exists_eq_append_opener hLength
    rw [hKept] at h
    rw [h] at hText
    exact ⟨f, hText⟩
  · split at h
    · cases h
    · rename_i hShort
      obtain ⟨last, hText⟩ : ∃ last, input = ['-', last] := by
        rcases List.eq_nil_or_concat input with rfl | ⟨front, last, rfl⟩
        · cases h
        · rw [List.concat_eq_append, List.dropLast_concat] at h
          exact ⟨last, by rw [h]; rfl⟩
      exact absurd (.inr (by rw [hText]; exact ⟨rfl, rfl⟩)) hShort

theorem deleteEnd_opener (f : Func) : deleteEnd ('-' :: f.opener) = ['-'] := by cases f <;> decide

theorem deleteEnd_ne_nil (input : Text) : deleteEnd input ≠ [] := by
  unfold deleteEnd
  dsimp only
  split
  · decide
  · rename_i hRest
    simpa using hRest

theorem Begun.deleteEnd (h : Begun input) (hOpener : ∀ f, input ≠ '-' :: Func.opener f) :
    Begun (deleteEnd input) := by
  unfold Buffer.deleteEnd
  dsimp only
  split
  · exact begun_start
  · rename_i hRest
    obtain ⟨tail, hText⟩ := exists_eq_dropEnd_append input
    rw [hText] at h
    apply h.of_append
    · simpa using hRest
    · intro hMinus
      obtain ⟨f, hInput⟩ := exists_opener_of_dropEnd hMinus
      exact hOpener f hInput

end Buffer

namespace Session

open Buffer (Begun)

variable {s : Session} {key : Key}

theorem pressAll_concat (s : Session) (keys : List Key) (key : Key) :
    s.pressAll (keys ++ [key]) = (s.pressAll keys).press key :=
  List.foldl_concat ..

theorem Reachable.pressAll (h : Reachable s) (keys : List Key) : Reachable (s.pressAll keys) := by
  induction keys generalizing s with
  | nil => exact h
  | cons key keys ih => exact ih (h.press key)

theorem Fresh.getD_committed (h : Fresh s) : s.committed.getD s.input = s.input := by
  cases hCommitted : s.committed with
  | none => rfl
  | some r => exact (h.committed r hCommitted).symm

theorem input_memoryAdd (s : Session) : s.memoryAdd.input = s.input := by
  obtain ⟨x, hMemory⟩ := s.exists_memoryAdd_eq
  rw [hMemory]

theorem input_memorySubtract (s : Session) : s.memorySubtract.input = s.input := by
  obtain ⟨x, hMemory⟩ := s.exists_memorySubtract_eq
  rw [hMemory]

theorem input_commit (s : Session) :
    s.commit.input = s.input ∨ ∃ x, s.commit.input = Display.text x := by
  unfold commit
  split
  · exact .inr ⟨_, rfl⟩
  · exact .inl rfl

/-- Only the sign button makes an empty buffer, and only of a lone minus. -/
theorem input_press_eq_nil_iff (h : s.input ≠ []) :
    (s.press key).input = [] ↔ key = .toggleSign ∧ s.input = ['-'] := by
  have hOther : key ≠ .toggleSign → (s.press key).input ≠ [] →
      ((s.press key).input = [] ↔ key = .toggleSign ∧ s.input = ['-']) :=
    fun hKey hInput => iff_of_false hInput fun hSign => hKey hSign.1
  cases key with
  | toggleSign =>
    rw [press, toggleSign, input_edit, Buffer.toggleSign_eq_nil_iff]
    exact (and_iff_right rfl).symm
  | digit c =>
    apply hOther (by simp)
    rw [press, typeDigit]
    split
    · rename_i typed hTyped
      exact Buffer.typeDigit?_ne_nil hTyped
    · exact h
  | operator op => exact hOther (by simp) (Buffer.typeOperator_ne_nil op _)
  | equals =>
    apply hOther (by simp)
    rcases input_commit s with hSame | ⟨x, hText⟩
    · exact fun hNil => h (hSame.symm.trans hNil)
    · exact fun hNil => (Buffer.begun_text x).ne_nil (hText.symm.trans hNil)
  | allClear => exact hOther (by simp) Buffer.begun_start.ne_nil
  | delete => exact hOther (by simp) (Buffer.deleteEnd_ne_nil _)
  | function f => exact hOther (by simp) (Buffer.typeFunction_ne_nil _ _)
  | constant c =>
    exact hOther (by simp) (Buffer.placeOperand_ne_nil _ (Buffer.begun_symbol c).ne_nil)
  | openParen => exact hOther (by simp) (Buffer.typeParen_ne_nil _ _)
  | closeParen => exact hOther (by simp) (Buffer.typeParen_ne_nil _ _)
  | second => exact hOther (by simp) h
  | memoryClear => exact hOther (by simp) h
  | memoryAdd => exact hOther (by simp) (by rwa [press, input_memoryAdd])
  | memorySubtract => exact hOther (by simp) (by rwa [press, input_memorySubtract])
  | memoryRecall =>
    apply hOther (by simp)
    rw [press, memoryRecall]
    split
    · exact h
    · exact Buffer.placeOperand_ne_nil _ (Buffer.begun_raw s.memory).ne_nil

/-- Every button leaves a buffer that starts as it should, but for deleting a function name behind a
minus. -/
theorem Fresh.begun_press (hFresh : Fresh s) (h : Begun s.input)
    (hDigit : ∀ c, key = .digit c → Key.isDigitOrPoint c = true)
    (hDelete : key = .delete → ∀ f, s.input ≠ '-' :: Func.opener f) :
    Begun (s.press key).input := by
  cases key with
  | digit c =>
    rw [press, typeDigit]
    split
    · rename_i typed hTyped
      exact h.typeDigit? (hDigit c rfl) hTyped
    · exact h
  | operator op =>
    rw [press, typeOperator, hFresh.getD_committed]
    exact h.typeOperator op
  | equals =>
    rw [press]
    rcases input_commit s with hSame | ⟨x, hText⟩
    · rwa [hSame]
    · rw [hText]
      exact Buffer.begun_text x
  | allClear => exact Buffer.begun_start
  | delete => exact h.deleteEnd (hDelete rfl)
  | toggleSign => exact h.toggleSign
  | function f => exact h.typeFunction _
  | constant c => exact h.placeOperand (Buffer.begun_symbol c)
  | openParen => exact h.typeParen (by decide)
  | closeParen => exact h.typeParen (by decide)
  | second => exact h
  | memoryClear => exact h
  | memoryAdd => rwa [press, input_memoryAdd]
  | memorySubtract => rwa [press, input_memorySubtract]
  | memoryRecall =>
    rw [press, memoryRecall]
    split
    · exact h
    · exact h.placeOperand (Buffer.begun_raw s.memory)

/-- The buffer is never empty while buttons are pressed if and only if the sign button is never
pressed on a lone minus. And if every digit button has a digit or the point, the buffer is never
empty or a lone minus if and only if no function name is ever deleted behind a minus. -/
theorem input_pressAll_ne_nil_iff (keys : List Key) :
    ((∀ pressed, pressed <+: keys → (new.pressAll pressed).input ≠ []) ↔
      ∀ pressed, pressed ++ [.toggleSign] <+: keys → (new.pressAll pressed).input ≠ ['-']) ∧
    ((∀ c, .digit c ∈ keys → Key.isDigitOrPoint c = true) →
      ((∀ pressed, pressed <+: keys →
          (new.pressAll pressed).input ≠ [] ∧ (new.pressAll pressed).input ≠ ['-']) ↔
        ∀ pressed f, pressed ++ [.delete] <+: keys →
          (new.pressAll pressed).input ≠ '-' :: Func.opener f)) := by
  refine ⟨⟨?_, ?_⟩, fun hDigits => ⟨?_, ?_⟩⟩
  · intro hNever pressed hPressed hMinus
    apply hNever _ hPressed
    rw [pressAll_concat]
    exact (input_press_eq_nil_iff (by simp [hMinus])).mpr ⟨rfl, hMinus⟩
  · intro hNever pressed
    induction pressed using List.reverseRecOn with
    | nil => exact fun _ => Buffer.begun_start.ne_nil
    | append_singleton pressed key ih =>
      intro hPressed hNil
      have hBefore := ih ((List.prefix_append pressed [key]).trans hPressed)
      rw [pressAll_concat] at hNil
      obtain ⟨rfl, hMinus⟩ := (input_press_eq_nil_iff hBefore).mp hNil
      exact hNever pressed hPressed hMinus
  · intro hNever pressed f hPressed hOpener
    apply (hNever _ hPressed).2
    rw [pressAll_concat, press, deleteLast, input_edit, hOpener, Buffer.deleteEnd_opener]
  · intro hNever pressed hPressed
    -- That the buffer is neither is not kept by itself; how the buffer starts is.
    suffices hBegun : Begun (new.pressAll pressed).input from ⟨hBegun.ne_nil, hBegun.ne_minus⟩
    induction pressed using List.reverseRecOn with
    | nil => exact Buffer.begun_start
    | append_singleton pressed key ih =>
      have hBefore := ih ((List.prefix_append pressed [key]).trans hPressed)
      rw [pressAll_concat]
      apply (Reachable.new.pressAll pressed).fresh.begun_press hBefore
      · rintro c rfl
        exact hDigits c (hPressed.subset (by simp))
      · rintro rfl f
        exact hNever pressed f hPressed

/-- A number with its sign, of which the digit is deleted. -/
theorem input_pressAll_ne_nil_iff_of_five :
    ∀ pressed, pressed <+: [Key.digit '5', .toggleSign, .delete] →
      (new.pressAll pressed).input ≠ [] ∧ (new.pressAll pressed).input ≠ ['-'] := by
  obtain ⟨-, hExact⟩ := input_pressAll_ne_nil_iff [Key.digit '5', .toggleSign, .delete]
  have hDigits (c : Char) (h : .digit c ∈ [Key.digit '5', .toggleSign, .delete]) :
      Key.isDigitOrPoint c = true := by
    obtain rfl : c = '5' := by simpa using h
    rfl
  apply (hExact hDigits).mpr
  intro pressed f hPressed
  have hInput : (new.pressAll [Key.digit '5', .toggleSign]).input = ['-', '5'] := by decide +kernel
  match pressed, hPressed with
  | [], hPressed => simp at hPressed
  | [_], hPressed => simp at hPressed
  | [_, _], hPressed =>
    simp only [List.cons_append, List.cons_prefix_cons] at hPressed
    obtain ⟨rfl, rfl, -⟩ := hPressed
    rw [hInput]
    cases f <;> decide
  | _ :: _ :: _ :: _, hPressed => simp at hPressed

/-- Deleting `sin(` behind a minus leaves the minus, and the sign button takes that away too. -/
theorem not_input_pressAll_ne_nil : ¬ ∀ keys, (new.pressAll keys).input ≠ [] := by
  intro h
  apply h [.function .sin, .toggleSign, .delete, .toggleSign]
  decide +kernel

end Session

end Calculator
