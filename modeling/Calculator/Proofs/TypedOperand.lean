import Calculator.Proofs.DisplayText
import Calculator.Proofs.StoredSettings

/-! Going on from a number that the calculator has put in the buffer: a result after a commit, or
the memory register. The number, an operator and a digit come to the operator's value, with one
exception: a sign binds looser than a power, so a negative base is raised without its sign. -/

namespace Calculator

namespace Binary64

theorem neg_neg (x : Binary64) : - -x = x := by
  cases x with
  | nan signaling => rfl
  | infinite negative => exact congrArg infinite (Bool.not_not negative)
  | finite negative m => exact congrArg (finite · m) (Bool.not_not negative)

theorem isFinite_neg (x : Binary64) : (-x).isFinite = x.isFinite := by
  cases x <;> rfl

end Binary64

/-- The value of an operator behind a number that is typed with its sign. The sign of a base is that
of the whole power. -/
def Operator.applyTyped (op : Operator) (x y : Binary64) : Except DomainError Binary64 :=
  if op = .pow ∧ x.isNegative = true then (op.apply (-x) y).map Neg.neg else op.apply x y

namespace Token

/-- The text is a numeral, with a minus in front of it if the number is negative. -/
inductive Spells : Text → Binary64 → Prop
  | unsigned {s : Text} {x : Binary64} : IsNumeral s x → x.isNegative = false → Spells s x
  | minus {s : Text} {x : Binary64} :
      IsNumeral s x → (-x).isNegative = true → Spells ('-' :: s) (-x)

variable {s t : Text} {x y : Binary64}

theorem spells_signed {m : Magnitude} (negative : Bool) (hNumeral : IsNumeral s (.finite false m))
    (hRank : m.rank ≠ 0) : Spells (Binary64.signed negative s) (.finite negative m) := by
  cases negative with
  | false => exact .unsigned hNumeral (Binary64.isNegative_finite_false m)
  | true => exact .minus hNumeral (Binary64.isNegative_finite_true hRank)

theorem spells_signed_infinite (negative : Bool) (hNumeral : IsNumeral s (.infinite false)) :
    Spells (Binary64.signed negative s) (.infinite negative) := by
  cases negative with
  | false => exact .unsigned hNumeral rfl
  | true => exact .minus hNumeral rfl

theorem exists_mem_getLast?_cons {c : Char} (h : ∃ b ∈ s.getLast?, b.isDigit = true) :
    ∃ b ∈ (c :: s).getLast?, b.isDigit = true := by
  obtain ⟨b, hLast, hDigit⟩ := h
  exact ⟨b, by rw [List.getLast?_cons, hLast]; rfl, hDigit⟩

theorem Spells.last (h : Spells s x) : ∃ c ∈ s.getLast?, c.isDigit = true := by
  cases h with
  | unsigned hNumeral _ => exact hNumeral.last
  | minus hNumeral _ => exact exists_mem_getLast?_cons hNumeral.last

theorem isNumeral_digit (d : Fin 10) : IsNumeral [Nat.digitChar d] (.ofNat d) := by
  have hDigit : ∀ d : Fin 10, Decimal.plain ⟨d, 0⟩ = [Nat.digitChar d] ∧
      Decimal.toBinary64 false ⟨d, 0⟩ = .ofNat d := by
    decide +kernel
  obtain ⟨hText, hValue⟩ := hDigit d
  rw [← hText, ← hValue]
  exact isNumeral_plain _

theorem IsNumeral.scans_binary (h : IsNumeral s x) (op : Operator) (d : Fin 10) :
    Scans (s ++ [op.symbol, Nat.digitChar d]) [.number x, .operator op, .number (.ofNat d)] := by
  have hDigit : HeadFails (· == '*') [Nat.digitChar d] := headFails_cons.mpr (by decide +revert)
  have hOperator : HeadFails isExtension [op.symbol, Nat.digitChar d] :=
    headFails_cons.mpr (by cases op <;> decide)
  exact h.scans hOperator ((isNumeral_digit d).alone.symbol op hDigit)

theorem Spells.evalText (angle : Angle) (h : Spells s x) : evalText angle s = .ok x := by
  cases h with
  | unsigned hNumeral _ => exact evalText_numeral angle hNumeral
  | minus hNumeral _ => exact evalText_minus angle hNumeral

/-- A number that is typed with its sign, an operator and a digit come to the operator's value. -/
theorem Spells.evalText_binary (angle : Angle) (h : Spells s x) (op : Operator) (d : Fin 10) :
    Calculator.evalText angle (s ++ [op.symbol, Nat.digitChar d]) =
      (op.applyTyped x (.ofNat d)).mapError .domain := by
  cases h with
  | unsigned hNumeral hSign =>
    have hParse : Expr.parse [.number x, .operator op, .number (.ofNat d)] =
        .ok (.binary op (.number x) (.number (.ofNat d))) := by
      cases op <;> rfl
    rw [evalText_of_parse angle (hNumeral.scans_binary op d 0) hParse, Operator.applyTyped,
      if_neg (by simp [hSign])]
    rfl
  | @minus s x hNumeral hSign =>
    have hScan := (hNumeral.scans_binary op d).minus 0
    rw [List.cons_append]
    by_cases hPower : op = .pow
    · -- The minus takes in the whole power.
      subst hPower
      have hParse : Expr.parse [.operator .sub, .number x, .operator .pow, .number (.ofNat d)] =
          .ok (.neg (.binary .pow (.number x) (.number (.ofNat d)))) := rfl
      rw [evalText_of_parse angle hScan hParse, Operator.applyTyped, if_pos ⟨rfl, hSign⟩,
        Binary64.neg_neg]
      rfl
    · have hParse : Expr.parse [.operator .sub, .number x, .operator op, .number (.ofNat d)] =
          .ok (.binary op (.neg (.number x)) (.number (.ofNat d))) := by
        cases op <;> first | rfl | exact absurd rfl hPower
      rw [evalText_of_parse angle hScan hParse, Operator.applyTyped, if_neg fun h => hPower h.1]
      rfl

end Token

/-! ### Numbers in the buffer -/

namespace Display

open Token in
theorem isNumeral_magnitudeText_infinite {m : Magnitude} (hScientific : isScientific m = true)
    (hRounded : (m.roundToDigits 11).nearest? = none) :
    IsNumeral (magnitudeText m) (.infinite false) := by
  have hText : magnitudeText m = scientificText (m.roundToDigits 11) :=
    magnitudeText_eq_scientificText hScientific (by simp [hRounded])
  have hNumeral := isNumeral_scientificText (m.roundToDigits 11)
  rwa [Decimal.toBinary64, hRounded, ← hText] at hNumeral

open Token in
/-- The text of a magnitude is a numeral of a number, or of an infinity if rounding the magnitude to
the digits of the text leads beyond the largest one. -/
theorem isNumeral_magnitudeText {m : Magnitude} (h : m.rank ≠ 0) :
    (∃ v, IsNumeral (magnitudeText m) (.finite false v) ∧ v.rank ≠ 0) ∨
      IsNumeral (magnitudeText m) (.infinite false) := by
  cases hRounded : (m.roundToDigits 11).nearest? with
  | some m' =>
    obtain ⟨v, hNumeral, hRank, -⟩ := exists_isNumeral_magnitudeText h hRounded
    exact .inl ⟨v, hNumeral, hRank⟩
  | none =>
    cases hScientific : isScientific m with
    | false =>
      obtain ⟨v, hNumeral, hRank, -⟩ := exists_isNumeral_plainText hScientific
      rw [magnitudeText_of_plain hScientific]
      exact .inl ⟨v, hNumeral, hRank⟩
    | true => exact .inr (isNumeral_magnitudeText_infinite hScientific hRounded)

open Token in
theorem exists_spells_text {x : Binary64} (h : x.isFinite = true) : ∃ v, Spells (text x) v := by
  cases x with
  | nan signaling => simp [Binary64.isFinite] at h
  | infinite negative => simp [Binary64.isFinite] at h
  | finite negative m =>
    by_cases hRank : m.rank = 0
    · refine ⟨.zero, ?_⟩
      rw [text, if_pos hRank]
      exact .unsigned isNumeral_zero rfl
    · rw [text, if_neg hRank]
      rcases isNumeral_magnitudeText hRank with ⟨v, hNumeral, hRank'⟩ | hNumeral
      · exact ⟨_, spells_signed negative hNumeral hRank'⟩
      · exact ⟨_, spells_signed_infinite negative hNumeral⟩

end Display

open Token in
theorem Binary64.spells_raw {x : Binary64} (hFinite : x.isFinite = true)
    (hZero : x.isZero = false) : Spells x.raw x := by
  cases x with
  | nan signaling => simp [isFinite] at hFinite
  | infinite negative => simp [isFinite] at hFinite
  | finite negative m =>
    have hRank : m.rank ≠ 0 := by simpa [isZero] using hZero
    exact spells_signed negative (isNumeral_shortest m) hRank

namespace Buffer

variable {input : Text} {c : Char}

theorem isOperator_of_isDigit (h : c.isDigit = true) : isOperator c = false := by
  unfold isOperator Operator.ofAscii? Operator.ofChar?
  split
  · split <;> first | rfl | exact absurd h (by decide)
  · rfl

theorem takesSign_of_isDigit (h : c.isDigit = true) : takesSign c = false := by
  simp only [takesSign, Bool.or_eq_false_iff, beq_eq_false_iff_ne]
  refine ⟨⟨⟨?_, ?_⟩, ?_⟩, ?_⟩ <;> rintro rfl <;> exact absurd h (by decide)

theorem typeOperator_of_last (op : Operator) (h : ∃ c ∈ input.getLast?, c.isDigit = true) :
    typeOperator input op = input ++ [op.symbol] := by
  obtain ⟨c, hLast, hDigit⟩ := h
  obtain ⟨before, rfl⟩ := List.getLast?_eq_some_iff.mp (Option.mem_def.mp hLast)
  have hMinus : c ≠ '-' := by
    rintro rfl
    exact absurd hDigit (by decide)
  have hReversed : typeOperatorReversed op (c :: before.reverse) =
      op.symbol :: c :: before.reverse := by
    unfold typeOperatorReversed
    split
    · rename_i hText
      exact absurd (List.cons.inj hText).1 hMinus
    · rename_i hText
      obtain ⟨rfl, rfl⟩ := List.cons.inj hText
      simp [takesSign_of_isDigit hDigit, isOperator_of_isDigit hDigit]
    · rename_i hText
      simp at hText
  rw [typeOperator, List.reverse_concat, hReversed]
  simp

/-- A digit is typed behind an operator as it is: neither a lone zero nor a negative one ends in an
operator. -/
theorem typeDigit?_operator (op : Operator) (d : Fin 10) :
    typeDigit? (input ++ [op.symbol]) (Nat.digitChar d) =
      some (input ++ [op.symbol, Nat.digitChar d]) := by
  have hPoint : Nat.digitChar d ≠ '.' := by decide +revert
  have hZero : op.symbol ≠ '0' := by cases op <;> decide
  have hStart : input ++ [op.symbol] ≠ start := by
    intro h
    exact hZero (by simpa [start] using congrArg List.getLast? h)
  have hNegative : input ++ [op.symbol] ≠ '-' :: start := by
    intro h
    exact hZero (by simpa [start] using congrArg List.getLast? h)
  rw [typeDigit?, if_neg hPoint, if_neg hStart, if_neg hNegative, List.append_assoc]
  rfl

end Buffer

namespace Session

variable {s : Session} {x : Binary64}

/-- The buffer after an operator and a digit. -/
def continued (s : Session) (op : Operator) (d : Fin 10) : Text :=
  ((s.press (.operator op)).press (.digit (Nat.digitChar d))).input

theorem continued_of_last (op : Operator) (d : Fin 10) {text : Text}
    (hText : s.committed.getD s.input = text) (h : ∃ c ∈ text.getLast?, c.isDigit = true) :
    s.continued op d = text ++ [op.symbol, Nat.digitChar d] := by
  have hOperator : (s.typeOperator op).input = text ++ [op.symbol] := by
    rw [typeOperator, input_edit, hText, Buffer.typeOperator_of_last op h]
  simp only [continued, press, typeDigit, hOperator, Buffer.typeDigit?_operator, input_edit]

open Token in
theorem evalText_continued (angle : Angle) (op : Operator) (d : Fin 10) {text : Text}
    (hText : s.committed.getD s.input = text) (h : Spells text x) :
    evalText angle (s.continued op d) = (op.applyTyped x (.ofNat d)).mapError .domain := by
  rw [continued_of_last op d hText h.last]
  exact h.evalText_binary angle op d

/-- A result that a commit has put in the buffer, and a number recalled from the memory, are one
operand of the operator that is pressed next, but for the sign of a base. -/
theorem evalText_continued_operand (h : Reachable s) (angle : Angle) (op : Operator) (d : Fin 10) :
    (∀ x, s.outcome = .value x → s.commit.committed = some (Display.text x) ∧
      ∃ v, evalText angle (Display.text x) = .ok v ∧
        evalText angle (s.commit.continued op d) =
          (op.applyTyped v (.ofNat d)).mapError .domain) ∧
    (s.memory.isZero = false →
      evalText angle (s.clear.memoryRecall.continued op d) =
        (op.applyTyped s.memory (.ofNat d)).mapError .domain) := by
  constructor
  · intro x hValue
    obtain ⟨v, hSpells⟩ := Display.exists_spells_text (isFinite_of_outcome hValue)
    have hCommitted : s.commit.committed = some (Display.text x) := by rw [commit_of_value hValue]
    refine ⟨hCommitted, v, hSpells.evalText angle, ?_⟩
    exact evalText_continued angle op d (by rw [hCommitted]; rfl) hSpells
  · intro hZero
    have hRecalled : s.clear.memoryRecall = s.clear.edit s.memory.raw := by
      rw [memoryRecall, if_neg (by rw [show s.clear.memory = s.memory from rfl, hZero]; decide)]
      rfl
    rw [hRecalled]
    apply evalText_continued angle op d rfl
    exact Binary64.spells_raw h.isFinite_memory hZero

/-- A result in scientific notation, and the same number recalled, less three. -/
theorem evalText_continued_operand_minus_three :
    let s := (new.load "-20000000000".toList).memoryAdd
    Reachable s ∧ s.commit.committed = some "-2e+10".toList ∧ s.memory.isZero = false ∧
      evalText .degrees (s.commit.continued .sub 3) = .ok (-.ofNat 20000000003) ∧
      evalText .degrees (s.clear.memoryRecall.continued .sub 3) = .ok (-.ofNat 20000000003) := by
  intro s
  have hReachable : Reachable s := (Reachable.new.load _).perform .memoryAdd
  have hValue : s.outcome = .value (-.ofNat 20000000000) := by decide +kernel
  have hZero : s.memory.isZero = false := by decide +kernel
  obtain ⟨hCommit, hRecall⟩ := evalText_continued_operand hReachable .degrees .sub 3
  obtain ⟨hCommitted, v, hText, hContinued⟩ := hCommit _ hValue
  have hResult : evalText .degrees (Display.text (-.ofNat 20000000000)) =
      .ok (-.ofNat 20000000000) := by
    decide +kernel
  have hSame : v = -.ofNat 20000000000 := Except.ok.inj (hText.symm.trans hResult)
  refine ⟨hReachable, hCommitted.trans (by decide +kernel), hZero, ?_, ?_⟩
  · rw [hContinued, hSame]
    decide +kernel
  · rw [hRecall hZero]
    decide +kernel

/-- The power of a negative operand does not take in its sign: `-2 ^ 0` comes to `-1`. -/
theorem not_evalText_continued_apply :
    (¬ ∀ s : Session, Reachable s → ∀ angle op d x, s.outcome = .value x →
      ∃ v, evalText angle (Display.text x) = .ok v ∧
        evalText angle (s.commit.continued op d) = (op.apply v (.ofNat d)).mapError .domain) ∧
    ¬ ∀ s : Session, Reachable s → ∀ angle op d, s.memory.isZero = false →
      evalText angle (s.clear.memoryRecall.continued op d) =
        (op.apply s.memory (.ofNat d)).mapError .domain := by
  have hReachable : Reachable (new.load "-2".toList).memoryAdd :=
    (Reachable.new.load _).perform .memoryAdd
  constructor
  · intro h
    obtain ⟨v, hText, hContinued⟩ :=
      h _ hReachable .radians .pow 0 (-.ofNat 2) (by decide +kernel)
    have hResult : evalText .radians (Display.text (-.ofNat 2)) = .ok (-.ofNat 2) := by
      decide +kernel
    have hSame : v = -.ofNat 2 := Except.ok.inj (hText.symm.trans hResult)
    rw [hSame] at hContinued
    revert hContinued
    decide +kernel
  · intro h
    have hContinued := h _ hReachable .radians .pow 0 (by decide +kernel)
    revert hContinued
    decide +kernel

end Session

end Calculator
