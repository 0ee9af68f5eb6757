import Calculator.Proofs.BufferStart
import Calculator.Proofs.PrintedTexts
import Calculator.Proofs.TypedConstant

/-! The function key and the delete key. A function name can end with another one, as `asin` ends
with `sin`, and deleting takes the longest. So it takes away just what a function key has typed
unless the buffer in front ends in the other letters of a longer name. With digits and the point on
the digit keys it never does: the one letter that stands by itself in a typed buffer is then the
constant `e`, and no function name ends with it or has it in front of another name. -/

namespace Calculator

namespace Buffer

variable {input operand kept tail : Text} {c : Char}

/-- Whether the character is typed by itself. The other letters come with a function name. -/
def isLoose (c : Char) : Bool := !c.isAlpha || c == 'e'

/-- The text is typed from characters of their own and from whole function names with their opening
parentheses. -/
inductive Typed : Text → Prop
  | nil : Typed []
  | char {s : Text} {c : Char} : Typed s → isLoose c = true → Typed (s ++ [c])
  | opener {s : Text} (f : Func) : Typed s → Typed (s ++ f.opener)

theorem isAlpha_of_isDigit (h : c.isDigit = true) : c.isAlpha = false := by
  cases hAlpha : c.isAlpha with
  | false => rfl
  | true =>
    have hDigit := (Token.toNat_of_isDigit h).2
    have hLetter := Token.toNat_of_isAlpha hAlpha
    omega

theorem isLoose_of_isTextChar (h : Display.isTextChar c = true) : isLoose c = true := by
  simp only [Display.isTextChar, Numeral.isPart, Numeral.isExpressionMark, Bool.or_eq_true,
    beq_iff_eq] at h
  obtain (((hDigit | rfl) | rfl) | rfl) | rfl := h
  · rw [isLoose, isAlpha_of_isDigit hDigit]
    rfl
  · decide
  · decide
  · decide
  · decide

theorem isLoose_of_isDigitOrPoint (h : Key.isDigitOrPoint c = true) : isLoose c = true := by
  rw [Key.isDigitOrPoint, Bool.or_eq_true, beq_iff_eq] at h
  rcases h with hDigit | rfl
  · exact isLoose_of_isTextChar (Display.isTextChar_of_isDigit hDigit)
  · decide

theorem isLoose_of_isOperator (h : isOperator c = true) : isLoose c = true := by
  obtain ⟨op, rfl⟩ := isOperator_iff.mp h
  cases op <;> decide

namespace Typed

theorem singleton (h : isLoose c = true) : Typed [c] := Typed.nil.char h

theorem append (h : Typed input) (hTail : Typed tail) : Typed (input ++ tail) := by
  induction hTail with
  | nil => rwa [List.append_nil]
  | char _ hLoose ih =>
    rw [← List.append_assoc]
    exact ih.char hLoose
  | opener f _ ih =>
    rw [← List.append_assoc]
    exact ih.opener f

theorem of_loose (h : ∀ c ∈ input, isLoose c = true) : Typed input := by
  induction input using List.reverseRecOn with
  | nil => exact .nil
  | append_singleton s c ih => exact (ih fun d hMem => h d (by simp [hMem])).char (h c (by simp))

theorem last (h : Typed input) : ∀ c ∈ input.getLast?, isLoose c = true := by
  cases h with
  | nil => simp
  | char _ hLoose => simpa using hLoose
  | opener f _ => simpa [Func.opener] using (by decide : isLoose '(' = true)

/-- Only a parenthesis may have typed more than itself. -/
theorem of_concat (h : Typed (input ++ [c])) (hParen : c ≠ '(') : Typed input := by
  generalize hText : input ++ [c] = text at h
  cases h with
  | nil => simp at hText
  | char hTyped _ =>
    obtain ⟨rfl, -⟩ := List.append_inj' hText rfl
    exact hTyped
  | opener f _ =>
    rw [Func.opener, ← List.append_assoc] at hText
    obtain ⟨-, hLast⟩ := List.append_inj' hText rfl
    exact absurd (List.singleton_injective hLast) hParen

theorem of_append_operators (h : Typed (kept ++ tail)) (hTail : ∀ c ∈ tail, isOperator c = true) :
    Typed kept := by
  induction tail using List.reverseRecOn with
  | nil => rwa [List.append_nil] at h
  | append_singleton ops c ih =>
    rw [← List.append_assoc] at h
    have hParen : c ≠ '(' := by
      rintro rfl
      exact absurd (hTail '(' (by simp)) (by decide)
    exact ih (h.of_concat hParen) fun d hMem => hTail d (by simp [hMem])

/-- A minus in front is typed by itself, since no function name starts with it. -/
theorem of_minus (h : Typed ('-' :: input)) : Typed input := by
  generalize hText : '-' :: input = text at h
  induction h generalizing input with
  | nil => cases hText
  | @char s c _ hLoose ih =>
    cases s with
    | nil =>
      obtain ⟨-, rfl⟩ := List.cons.inj hText
      exact .nil
    | cons first rest =>
      obtain ⟨rfl, rfl⟩ := List.cons.inj hText
      exact (ih rfl).char hLoose
  | @opener s f _ ih =>
    cases s with
    | nil => cases f <;> cases hText
    | cons first rest =>
      obtain ⟨rfl, rfl⟩ := List.cons.inj hText
      exact (ih rfl).opener f

end Typed

/-! ### Deleting -/

theorem openerLength?_eq_none_iff :
    openerLength? input = none ↔ ∀ f : Func, ¬f.opener <:+ input := by
  simp [openerLength?, Text.endsWith, Func.mem_all]

theorem openerLength?_eq_some_iff {n : ℕ} :
    openerLength? input = some n ↔
      (∃ f : Func, f.opener <:+ input ∧ f.opener.length = n) ∧
        ∀ f : Func, f.opener <:+ input → f.opener.length ≤ n := by
  simp [openerLength?, Text.endsWith, Func.mem_all, List.max?_eq_some_iff]

/-- Where a function name ends with another one, a letter other than `e` is in front of that. -/
theorem eq_nil_of_opener_eq_append {f g : Func} {front : Text} (h : g.opener = front ++ f.opener)
    (hFront : ∀ c ∈ front.getLast?, isLoose c = true) : front = [] := by
  have hAll : ∀ f ∈ Func.all, ∀ g ∈ Func.all,
      let front := g.opener.take (g.opener.length - f.opener.length)
      g.opener = front ++ f.opener → front.getLast?.all isLoose = true → front = [] := by
    decide +kernel
  have hTake : g.opener.take (g.opener.length - f.opener.length) = front := by
    rw [h, List.length_append, Nat.add_sub_cancel, List.take_left]
  have hFound := hAll f f.mem_all g g.mem_all
  dsimp only at hFound
  rw [hTake] at hFound
  refine hFound h ?_
  cases hLast : front.getLast? with
  | none => rfl
  | some c => exact hFront c hLast

/-- The text ends in letters that make another function's name of this one's. -/
def Lengthens (input : Text) (f : Func) : Prop :=
  ∃ (g : Func) (front : Text), front ≠ [] ∧ front <:+ input ∧ g.opener = front ++ f.opener

theorem not_lengthens (f : Func) (h : ∀ c ∈ input.getLast?, isLoose c = true) :
    ¬Lengthens input f := by
  rintro ⟨g, front, hNonempty, ⟨before, rfl⟩, hName⟩
  refine hNonempty (eq_nil_of_opener_eq_append hName fun c hLast => h c ?_)
  rw [List.getLast?_append, Option.mem_def.mp hLast]
  rfl

/-- A function name that ends a text behind which another one is typed is part of that, or reaches
into the text. -/
theorem length_le_or_lengthens {f g : Func} (h : g.opener <:+ input ++ f.opener) :
    g.opener.length ≤ f.opener.length ∨ Lengthens input f := by
  rcases List.suffix_or_suffix_of_suffix h (List.suffix_append input f.opener) with
      hShorter | ⟨front, hName⟩
  · exact .inl hShorter.length_le
  · by_cases hFront : front = []
    · left
      rw [← hName, hFront, List.nil_append]
    · right
      obtain ⟨before, hText⟩ := h
      rw [← hName, ← List.append_assoc] at hText
      exact ⟨g, front, hFront, ⟨before, List.append_cancel_right hText⟩, hName.symm⟩

theorem openerLength?_append_opener {f : Func} (h : ¬Lengthens input f) :
    openerLength? (input ++ f.opener) = some f.opener.length :=
  openerLength?_eq_some_iff.mpr ⟨⟨f, List.suffix_append input f.opener, rfl⟩,
    fun _ hEnds => (length_le_or_lengthens hEnds).resolve_right h⟩

/-- The longest name that ends the text is the longer one, or longer still. -/
theorem Lengthens.exists_openerLength? {f : Func} (h : Lengthens input f) :
    ∃ n, openerLength? (input ++ f.opener) = some n ∧ f.opener.length < n := by
  obtain ⟨g, front, hNonempty, ⟨before, rfl⟩, hName⟩ := h
  have hEnds : g.opener <:+ before ++ front ++ f.opener :=
    ⟨before, by rw [hName, List.append_assoc]⟩
  cases hLength : openerLength? (before ++ front ++ f.opener) with
  | none => exact absurd hEnds (openerLength?_eq_none_iff.mp hLength g)
  | some n =>
    have hLongest : g.opener.length ≤ n := (openerLength?_eq_some_iff.mp hLength).2 g hEnds
    have hFront := List.length_pos_iff.mpr hNonempty
    rw [hName, List.length_append] at hLongest
    exact ⟨n, rfl, by omega⟩

theorem exists_getLast?_name (f : Func) : ∃ c ∈ f.name.getLast?, isLoose c = false := by
  cases f <;> exact ⟨_, rfl, by decide⟩

/-- A character typed by itself completes no function name, since none ends in a loose one. -/
theorem openerLength?_concat (h : Typed input) (c : Char) :
    openerLength? (input ++ [c]) = none := by
  refine openerLength?_eq_none_iff.mpr fun f ⟨front, hText⟩ => ?_
  rw [Func.opener, ← List.append_assoc] at hText
  obtain ⟨rfl, -⟩ := List.append_inj' hText rfl
  obtain ⟨d, hName, hLetter⟩ := exists_getLast?_name f
  have hEnd : d ∈ (front ++ f.name).getLast? := by
    simp [List.getLast?_append, Option.mem_def.mp hName]
  have hLast := h.last d hEnd
  rw [hLetter] at hLast
  cases hLast

theorem dropEnd_append_opener {f : Func} (h : ¬Lengthens input f) :
    dropEnd (input ++ f.opener) = input := by
  rw [dropEnd, openerLength?_append_opener h]
  dsimp only
  rw [List.length_append, Nat.add_sub_cancel, List.take_left]

theorem Lengthens.length_dropEnd_lt {f : Func} (h : Lengthens input f) (hInput : input ≠ []) :
    (dropEnd (input ++ f.opener)).length < input.length := by
  obtain ⟨n, hLength, hLonger⟩ := h.exists_openerLength?
  have hPos := List.length_pos_iff.mpr hInput
  rw [dropEnd, hLength]
  dsimp only
  rw [List.length_take, List.length_append]
  omega

theorem Typed.dropEnd (h : Typed input) : Typed (dropEnd input) := by
  cases h with
  | nil => exact .nil
  | char hTyped _ =>
    rw [Buffer.dropEnd, openerLength?_concat hTyped]
    dsimp only
    split
    · exact .nil
    · rwa [List.dropLast_concat]
  | opener f hTyped => rwa [dropEnd_append_opener (not_lengthens f hTyped.last)]

theorem typed_start : Typed start := .singleton (by decide)

theorem Typed.deleteEnd (h : Typed input) : Typed (deleteEnd input) := by
  unfold Buffer.deleteEnd
  dsimp only
  split
  · exact typed_start
  · exact h.dropEnd

/-- Deleting takes just the function name away that a function key has typed, unless the text in
front makes it a longer one. Where the key has replaced a lone zero, the zero is back. -/
theorem deleteEnd_typeFunction_iff (hInput : input ≠ []) (f : Func) :
    deleteEnd (typeFunction input f) = input ↔ ¬Lengthens input f := by
  rw [typeFunction, withoutZero]
  split
  · rename_i hStart
    subst hStart
    have hZero : ¬Lengthens start f := not_lengthens f typed_start.last
    refine iff_of_true ?_ hZero
    rw [deleteEnd, dropEnd_append_opener (not_lengthens f (by simp))]
    rfl
  · rename_i hOther
    constructor
    · intro hSame hLonger
      have hShorter := hLonger.length_dropEnd_lt hInput
      rw [deleteEnd] at hSame
      split at hSame
      · exact hOther hSame.symm
      · rw [hSame] at hShorter
        exact absurd hShorter (Nat.lt_irrefl _)
    · intro hApart
      rw [deleteEnd, dropEnd_append_opener hApart]
      exact if_neg (by simpa using hInput)

/-! ### Typing -/

theorem Typed.typeDigit? {typed : Text} (h : Typed input) (hDigit : Key.isDigitOrPoint c = true)
    (hTyped : typeDigit? input c = some typed) : Typed typed := by
  have hLoose := isLoose_of_isDigitOrPoint hDigit
  rcases eq_of_typeDigit? hTyped with rfl | rfl | rfl
  · exact h.char hLoose
  · exact .singleton hLoose
  · exact (Typed.singleton (by decide : isLoose '-' = true)).char hLoose

theorem Typed.typeOperator (h : Typed input) (op : Operator) : Typed (typeOperator input op) := by
  obtain ⟨kept, dropped, added, rfl, hDropped, hTyped, hAdded, -⟩ := exists_typeOperator_eq op input
  rw [hTyped]
  exact (h.of_append_operators hDropped).append
    (.of_loose fun d hMem => isLoose_of_isOperator (hAdded d hMem))

theorem Typed.withoutZero (h : Typed input) : Typed (withoutZero input) := by
  unfold Buffer.withoutZero
  split
  · exact .nil
  · exact h

theorem Typed.typeFunction (h : Typed input) (f : Func) : Typed (typeFunction input f) :=
  h.withoutZero.opener f

theorem Typed.typeParen (h : Typed input) (hLoose : isLoose c = true) :
    Typed (typeParen input c) := by
  unfold Buffer.typeParen
  split
  · exact h.withoutZero.char hLoose
  · exact h.char hLoose

theorem Typed.placeOperand (h : Typed input) (hOperand : Typed operand) :
    Typed (placeOperand input operand) := by
  have hAsterisk : Typed ['*'] := .singleton (by decide)
  rcases placeOperand_eq input operand with hPlaced | hPlaced | hPlaced
  · rwa [hPlaced]
  · rw [hPlaced]
    exact h.append hOperand
  · rw [hPlaced]
    exact h.append (hAsterisk.append hOperand)

theorem Typed.toggleSign (h : Typed input) : Typed (toggleSign input) := by
  unfold Buffer.toggleSign
  split
  · exact h.of_minus
  · exact (Typed.singleton (by decide : isLoose '-' = true)).append h

theorem typed_text {x : Binary64} (h : x.isFinite = true) : Typed (Display.text x) :=
  .of_loose fun _ hMem => isLoose_of_isTextChar (Display.isTextChar_of_mem_text h hMem)

theorem typed_raw {x : Binary64} (h : x.isFinite = true) : Typed x.raw :=
  .of_loose fun _ hMem => isLoose_of_isTextChar (Display.isTextChar_of_mem_raw h hMem)

theorem typed_symbol (c : Constant) : Typed c.symbol := by
  cases c with
  | pi => exact .singleton (by decide)
  | e => exact .singleton (by decide)

end Buffer

namespace Session

open Buffer (Typed Lengthens)

variable {s : Session} {key : Key}

theorem typed_commit (h : Typed s.input) : Typed s.commit.input := by
  unfold commit
  split
  · rename_i x hValue
    exact Buffer.typed_text (isFinite_of_outcome hValue)
  · exact h

/-- Every button leaves a typed buffer. -/
theorem typed_press (hReachable : Reachable s) (h : Typed s.input)
    (hDigit : ∀ c, key = .digit c → Key.isDigitOrPoint c = true) : Typed (s.press key).input := by
  cases key with
  | digit c =>
    rw [press, typeDigit]
    split
    · rename_i typed hTyped
      exact h.typeDigit? (hDigit c rfl) hTyped
    · exact h
  | operator op =>
    rw [press, typeOperator, hReachable.fresh.getD_committed]
    exact h.typeOperator op
  | equals => exact typed_commit h
  | allClear => exact Buffer.typed_start
  | delete => exact h.deleteEnd
  | toggleSign => exact h.toggleSign
  | function f => exact h.typeFunction _
  | constant c => exact h.placeOperand (Buffer.typed_symbol c)
  | openParen => exact h.typeParen (by decide)
  | closeParen => exact h.typeParen (by decide)
  | second => exact h
  | memoryClear => exact h
  | memoryAdd => rwa [press, input_memoryAdd]
  | memorySubtract => rwa [press, input_memorySubtract]
  | memoryRecall =>
    rw [press, memoryRecall]
    split
    · exact h
    · exact h.placeOperand (Buffer.typed_raw hReachable.isFinite_memory)

theorem typed_pressAll {keys : List Key}
    (hDigits : ∀ c, .digit c ∈ keys → Key.isDigitOrPoint c = true) :
    Typed (new.pressAll keys).input := by
  induction keys using List.reverseRecOn with
  | nil => exact Buffer.typed_start
  | append_singleton keys key ih =>
    rw [pressAll_concat]
    apply typed_press (Reachable.new.pressAll keys)
    · exact ih fun c hMem => hDigits c (by simp [hMem])
    · rintro c rfl
      exact hDigits c (by simp)

/-- Deleting undoes a function key if and only if the buffer does not end in letters that make
another function's name of the one that is typed. It always does if every digit button so far has a
digit or the point, whichever other buttons have been pressed. -/
theorem delete_press_function_iff {keys : List Key} (hInput : (new.pressAll keys).input ≠ [])
    (f : Func) :
    let s := new.pressAll keys
    (((s.press (.function f)).press .delete).input = s.input ↔
      ¬Lengthens s.input (if s.second then f.second else f)) ∧
    ((∀ c, .digit c ∈ keys → Key.isDigitOrPoint c = true) →
      ((s.press (.function f)).press .delete).input = s.input) := by
  intro s
  have hExact := Buffer.deleteEnd_typeFunction_iff hInput (if s.second then f.second else f)
  exact ⟨hExact, fun hDigits => hExact.mpr (Buffer.not_lengthens _ (typed_pressAll hDigits).last)⟩

/-- The name `exp` behind the constant `e` of a product, in the second set. -/
theorem delete_press_function_iff_of_product :
    (((new.pressAll [.digit '2', .constant .e, .second]).press (.function .ln)).press
      .delete).input = "2*e".toList := by
  have hInput : (new.pressAll [.digit '2', .constant .e, .second]).input = "2*e".toList := by
    decide +kernel
  have hNonempty : (new.pressAll [.digit '2', .constant .e, .second]).input ≠ [] := by
    rw [hInput]
    decide
  obtain ⟨-, hUndone⟩ := delete_press_function_iff hNonempty .ln
  rw [← hInput]
  refine hUndone fun c hMem => ?_
  obtain rfl : c = '2' := by simpa using hMem
  rfl

/-- A digit button with the letter `a` makes `asin` of the function `sin`. -/
theorem not_delete_press_function :
    ¬ ∀ (keys : List Key) (f : Func), (new.pressAll keys).input ≠ [] →
      (((new.pressAll keys).press (.function f)).press .delete).input =
        (new.pressAll keys).input := by
  intro h
  have hUndone := h [.digit 'a'] .sin (by decide +kernel)
  revert hUndone
  decide +kernel

end Session

end Calculator
