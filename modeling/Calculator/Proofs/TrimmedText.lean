import Calculator.Proofs.BlankSeparation
import Calculator.Proofs.DisplayText

/-! Blanks around a text. A blank takes part in no token, so a text has the tokens and the value of
the trimmed one. Only the positions in errors differ. -/

namespace Calculator

namespace Text

variable {s t : Text}

theorem isAllBlank_append (s t : Text) :
    (s ++ t).isAllBlank = (s.isAllBlank && t.isAllBlank) := List.all_append

theorem isAllBlank_cons (c : Char) (s : Text) :
    isAllBlank (c :: s) = (isBlank c && s.isAllBlank) := List.all_cons

theorem exists_trimEnd_eq (s : Text) : ∃ back, s = s.trimEnd ++ back ∧ back.isAllBlank = true := by
  refine ⟨(s.reverse.takeWhile isBlank).reverse, ?_, ?_⟩
  · rw [trimEnd, ← List.reverse_append, List.takeWhile_append_dropWhile, List.reverse_reverse]
  · rw [isAllBlank, List.all_reverse]
    exact List.all_takeWhile

/-- The trimmed text with blanks on both sides is the text. -/
theorem exists_trim_eq (s : Text) : ∃ front back, s = front ++ (s.trim ++ back) ∧
    front.isAllBlank = true ∧ back.isAllBlank = true := by
  obtain ⟨back, hBack, hBlank⟩ := exists_trimEnd_eq (s.dropWhile isBlank)
  refine ⟨s.takeWhile isBlank, back, ?_, List.all_takeWhile, hBlank⟩
  rw [trim, ← hBack, List.takeWhile_append_dropWhile]

theorem words_of_isAllBlank (h : s.isAllBlank = true) : s.words = [] := by
  induction s with
  | nil => rfl
  | cons c s ih =>
    rw [isAllBlank_cons, Bool.and_eq_true] at h
    have hRest : words (c :: s) = words s := if_pos h.1
    rw [hRest]
    exact ih h.2

/-- A text with words in it is not trimmed to a blank one. -/
theorem isAllBlank_trim_of_words (h : s.words ≠ []) : s.trim.isAllBlank = false := by
  obtain ⟨front, back, hText, hFront, hBack⟩ := exists_trim_eq s
  cases hTrim : s.trim.isAllBlank with
  | false => rfl
  | true =>
    have hAll : s.isAllBlank = true := by
      rw [hText, isAllBlank_append, isAllBlank_append, hFront, hTrim, hBack]
      rfl
    exact absurd (words_of_isAllBlank hAll) h

end Text

namespace Token

variable {front tail : Text}

theorem apart_of_isAllBlank (s : Text) (h : tail.isAllBlank = true) : Apart s tail := by
  cases tail with
  | nil => exact apart_nil s
  | cons c tail =>
    rw [Text.isAllBlank_cons, Bool.and_eq_true] at h
    exact apart_of_isBlank s tail h.1

theorem scanAt_blank_append (position : ℕ) (h : front.isAllBlank = true) (s : Text) :
    scanAt position (front ++ s) = scanAt (position + front.length) s := by
  induction front generalizing position with
  | nil => rfl
  | cons c front ih =>
    rw [Text.isAllBlank_cons, Bool.and_eq_true] at h
    rw [List.cons_append, scanAt_of_isBlank position h.1, ih (position + 1) h.2, List.length_cons,
      Nat.add_right_comm, Nat.add_assoc]

theorem scanAt_append_blank (position : ℕ) (h : tail.isAllBlank = true) (s : Text) :
    scanAt position (s ++ tail) = scanAt position s := by
  rw [scanAt_append (apart_of_isAllBlank s h), scans_of_isAllBlank h]
  cases scanAt position s with
  | error e => rfl
  | ok ts => exact congrArg Except.ok (List.append_nil ts)

theorem toOption_mapError {α ε ε' : Type} (f : ε → ε') (result : Except ε α) :
    (result.mapError f).toOption = result.toOption := by
  cases result with
  | error e => rfl
  | ok a => rfl

/-- Where a text stands makes no difference to its tokens. -/
theorem toOption_scanAt (p q : ℕ) (s : Text) :
    (scanAt p s).toOption = (scanAt q s).toOption := by
  rw [← Nat.zero_add p, ← Nat.zero_add q, scanAt_add, scanAt_add, toOption_mapError,
    toOption_mapError]

theorem scanAt_eq_ok_iff (p q : ℕ) {s : Text} {ts : List Token} :
    scanAt p s = .ok ts ↔ scanAt q s = .ok ts := by
  have hSame := toOption_scanAt p q s
  cases hp : scanAt p s <;> cases hq : scanAt q s <;> simp_all [Except.toOption]

/-- A text has the tokens of the trimmed one, or neither has any. -/
theorem toOption_scan_trim (s : Text) : (scan s.trim).toOption = (scan s).toOption := by
  obtain ⟨front, back, hText, hFront, hBack⟩ := Text.exists_trim_eq s
  calc (scan s.trim).toOption
    _ = (scanAt (0 + front.length) s.trim).toOption := toOption_scanAt 0 _ s.trim
    _ = (scanAt (0 + front.length) (s.trim ++ back)).toOption := by
      rw [scanAt_append_blank _ hBack]
    _ = (scanAt 0 (front ++ (s.trim ++ back))).toOption := by rw [scanAt_blank_append 0 hFront]
    _ = (scan s).toOption := by rw [← hText, scan]

end Token

theorem toOption_evalText (angle : Angle) {s t : Text}
    (h : (Token.scan s).toOption = (Token.scan t).toOption) :
    (evalText angle s).toOption = (evalText angle t).toOption := by
  unfold evalText parseText
  cases hScan : Token.scan s with
  | error e =>
    cases hScan' : Token.scan t with
    | error e' => rfl
    | ok us =>
      rw [hScan, hScan'] at h
      cases h
  | ok ts =>
    cases hScan' : Token.scan t with
    | error e' =>
      rw [hScan, hScan'] at h
      cases h
    | ok us =>
      rw [hScan, hScan'] at h
      cases h
      rfl

/-- A text has the value of the trimmed one, or neither has any. -/
theorem value?_evaluate_trim (angle : Angle) (s : Text) :
    (evaluate angle s.trim).value? = (evaluate angle s).value? := by
  rw [evaluate, evaluate, value?_ofResult, value?_ofResult,
    toOption_evalText angle (Token.toOption_scan_trim s)]

end Calculator
