import Calculator.Proofs.DisplayText
import Calculator.Proofs.Grammar
import Calculator.Proofs.Incomplete
import Calculator.Proofs.SessionSteps
import Calculator.Proofs.TokenBoundary

/-! The constant key. The last character of the buffer decides whether the constant is an operand of
its own or multiplied onto what stands before it: behind an ASCII operator or an opening parenthesis
it stands alone. The character and the last token tell the same for an expression, but not behind a
display sign such as `×` or a blank, where an operand is due and an asterisk is typed all the same.
-/

namespace Calculator

theorem Operator.eq_symbol_of_ofChar? {c : Char} {op : Operator} (h : ofChar? c = some op) :
    c = op.symbol ∨ c = '×' ∨ c = '÷' := by
  unfold ofChar? at h
  split at h <;> cases h <;> decide

namespace Buffer

variable {input operand : Text} {last : Char}

theorem isOperator_iff {c : Char} : isOperator c = true ↔ ∃ op : Operator, c = op.symbol := by
  constructor
  · intro h
    unfold isOperator Operator.ofAscii? at h
    split at h
    · rename_i hAscii
      obtain ⟨op, hOp⟩ := Option.isSome_iff_exists.mp h
      rcases Operator.eq_symbol_of_ofChar? hOp with hSymbol | rfl | rfl
      · exact ⟨op, hSymbol⟩
      · exact absurd hAscii (by decide)
      · exact absurd hAscii (by decide)
    · cases h
  · rintro ⟨op, rfl⟩
    rw [isOperator, Operator.ofAscii?_symbol]
    rfl

/-- An operand stands alone behind the character. -/
def PrecedesOperand (c : Char) : Prop := isOperator c = true ∨ c = '('

instance : DecidablePred PrecedesOperand := fun c =>
  inferInstanceAs (Decidable (isOperator c = true ∨ c = '('))

theorem not_isExtension_of_precedesOperand (h : PrecedesOperand last) :
    Token.isExtension last = false ∧ isBlank last = false := by
  rcases h with hOperator | rfl
  · obtain ⟨op, rfl⟩ := isOperator_iff.mp hOperator
    cases op <;> decide
  · decide

theorem ne_start (h : last ∈ input.getLast?) (hLast : last ≠ '0') : input ≠ start := by
  rintro rfl
  exact hLast (Option.some.inj h).symm

theorem placeOperand_of_precedes (h : last ∈ input.getLast?) (hLast : PrecedesOperand last) :
    placeOperand input operand = input ++ operand := by
  have hStart : input ≠ start := ne_start h (by rintro rfl; revert hLast; decide)
  have hCheck : (isOperator last || last == '(') = true := by
    simpa [PrecedesOperand] using hLast
  rw [placeOperand, if_neg hStart, Option.mem_def.mp h]
  exact if_pos hCheck

theorem placeOperand_of_not_precedes (hStart : input ≠ start) (h : last ∈ input.getLast?)
    (hLast : ¬PrecedesOperand last) : placeOperand input operand = input ++ '*' :: operand := by
  have hCheck : ¬(isOperator last || last == '(') = true := by
    simpa [PrecedesOperand] using hLast
  rw [placeOperand, if_neg hStart, Option.mem_def.mp h]
  exact if_neg hCheck

end Buffer

namespace Token

open Buffer (PrecedesOperand)

variable {s : Text} {ts : List Token} {t : Token} {last : Char}

theorem apart_symbol (c : Constant) (h : last ∈ s.getLast?) (hLast : PrecedesOperand last) :
    Apart s c.symbol where
  numeral := by cases c <;> exact headFails_cons.mpr (by decide)
  word := by
    intro last' hLast' hExtends
    obtain rfl : last = last' := Option.some.inj (h.symm.trans hLast')
    rw [(Buffer.not_isExtension_of_precedesOperand hLast).1] at hExtends
    cases hExtends
  power := fun _ => by cases c <;> exact headFails_cons.mpr (by decide)

theorem scan_append_symbol (c : Constant) (hScan : scan s = .ok ts) (h : last ∈ s.getLast?)
    (hLast : PrecedesOperand last) : scan (s ++ c.symbol) = .ok (ts ++ [.constant c]) := by
  have hConstant := scans_nil.constant c (headFails_nil isExtension)
  rw [List.append_nil] at hConstant
  exact scan_append (apart_symbol c h hLast) hScan hConstant

theorem scan_append_times_symbol (c : Constant) (hScan : scan s = .ok ts)
    (h : s.getLast? ≠ some '*') :
    scan (s ++ '*' :: c.symbol) = .ok (ts ++ [.operator .mul, .constant c]) := by
  have hConstant := scans_nil.constant c (headFails_nil isExtension)
  rw [List.append_nil] at hConstant
  have hTail := hConstant.symbol .mul (by cases c <;> exact headFails_cons.mpr (by decide))
  exact scan_append (apart_asterisk _ h) hScan hTail

/-- A token that ends with an ASCII operator or an opening parenthesis is an operator or an opener.
-/
theorem of_endsIn_of_precedesOperand (hLast : PrecedesOperand last) (h : t.endsIn last = true) :
    (∃ op, t = .operator op) ∨ t.isOpener = true := by
  have hOther : Key.isDigitOrPoint last = false ∧ isLetter last = false ∧ last ≠ ')' := by
    rcases hLast with hOperator | rfl
    · obtain ⟨op, rfl⟩ := Buffer.isOperator_iff.mp hOperator
      cases op <;> decide
    · decide
  obtain ⟨hDigit, hLetter, hClose⟩ := hOther
  cases t with
  | operator op => exact .inl ⟨op, rfl⟩
  | function f => exact .inr rfl
  | openParen => exact .inr rfl
  | number x => rw [endsIn, hDigit] at h; cases h
  | bareFunction f => rw [endsIn, hLetter] at h; cases h
  | constant c => rw [endsIn, hLetter] at h; cases h
  | closeParen => exact absurd (beq_iff_eq.mp h) hClose

end Token

namespace Expr

open Calculator.Parser

variable {ts : List Token} {t : Token} {e operand : Expr}

/-- An expression ends with neither an operator nor an opener. -/
theorem last_of_parse (h : parse ts = .ok e) (hLast : t ∈ ts.getLast?) :
    (∀ op, t ≠ .operator op) ∧ t.isOpener = false := by
  obtain ⟨before, rfl⟩ := List.getLast?_eq_some_iff.mp (Option.mem_def.mp hLast)
  obtain ⟨stack, arg, hRun, -⟩ := parse_eq_ok_iff.mp h
  obtain ⟨state, -, hRest⟩ := run_append_eq_ok_iff.mp hRun
  obtain ⟨next, hStep, hNext⟩ := run_cons_eq_ok_iff.mp hRest
  rw [run_nil, Except.ok.injEq] at hNext
  rw [hNext] at hStep
  cases reading_of_step hStep with
  | number => exact ⟨by simp, rfl⟩
  | constant => exact ⟨by simp, rfl⟩
  | closeParen => exact ⟨by simp, rfl⟩

/-- The text of an expression ends with neither an ASCII operator nor an opening parenthesis. -/
theorem exists_last_of_parse {s : Text} (hScan : Token.scan s = .ok ts) (hParse : parse ts = .ok e) :
    ∃ last ∈ s.getLast?, ¬Buffer.PrecedesOperand last := by
  cases h : s.getLast? with
  | none =>
    rw [List.getLast?_eq_none_iff.mp h, Token.scan, Token.scans_nil] at hScan
    cases hScan
    cases hParse
  | some last =>
    refine ⟨last, rfl, fun hLast => ?_⟩
    have hBlank := (Buffer.not_isExtension_of_precedesOperand hLast).2
    obtain ⟨t, hMem, hEnds⟩ := Token.exists_last_token hScan h hBlank
    obtain ⟨hOperator, hOpener⟩ := last_of_parse hParse hMem
    rcases Token.of_endsIn_of_precedesOperand hLast hEnds with ⟨op, rfl⟩ | hIsOpener
    · exact hOperator op rfl
    · rw [hOpener] at hIsOpener
      cases hIsOpener

/-- An operator that nests nothing deeper can follow every expression. -/
theorem exists_ready_of_parse {op : Operator} (hPow : op ≠ .pow) (h : parse ts = .ok e) :
    ∃ stack, run (.operand []) (ts ++ [.operator op]) = .ok (.operand stack) := by
  obtain ⟨stack, arg, hRun, -⟩ := parse_eq_ok_iff.mp h
  have hStart : Reads (.operand []) [] := ⟨.nil, by decide⟩
  obtain ⟨before, us, -, hWaits, hArg⟩ := hStart.run hRun
  obtain ⟨_, _, -, -, hLeft⟩ :=
    hWaits.unwind op (fits_of_rank_le stack (by decide)) (Nat.zero_le _) hArg
  have hDepth : depth (.binary op (unwind op.strength stack arg).2 ::
      (unwind op.strength stack arg).1) ≤ depthLimit := by
    rw [depth_binary _ _ hPow]
    exact hLeft.depth_le
  have hStep : step (.complete stack arg) (.operator op) = .ok (.operand _) := descend_of_le hDepth
  exact ⟨_, by rw [run_append_of_run _ hRun, run_cons_of_step _ hStep, run_nil]⟩

/-- A factor may be multiplied onto every expression. -/
theorem exists_parse_append_factor (hOperand : t.operand? = some operand) (h : parse ts = .ok e) :
    ∃ result, parse (ts ++ [.operator .mul, t]) = .ok result := by
  obtain ⟨stack, hRun⟩ := exists_ready_of_parse (by decide : Operator.mul ≠ .pow) h
  have hIncomplete := incomplete_iff.mpr ⟨_, stack, hRun, .operand stack⟩
  have hParse := (exists_parse_append_operand_iff hOperand).mpr hIncomplete
  rwa [List.append_assoc] at hParse

/-- Where an operand is due, an asterisk is out of place. -/
theorem parse_append_factor_of_incomplete (hParse : parse ts = .error .incomplete)
    (hFree : Token.FreeOfEmptyGroups ts) :
    parse (ts ++ [.operator .mul, t]) = .error (.malformed (.misplacedOperator .mul)) := by
  obtain ⟨state, stack, hRun, hReady⟩ := incomplete_iff.mp ⟨hParse, hFree⟩
  have hStep : step state (.operator .mul) = .error (.malformed (.misplacedOperator .mul)) :=
    hReady.step_eq (by simp)
  apply parse_eq_of_run_error
  rw [run_append_of_run _ hRun, run_cons, hStep]
  rfl

end Expr

namespace Session

open Buffer (PrecedesOperand)

variable {s : Session} {ts : List Token}

theorem scan_typeConstant_of_not_precedes {last : Char} (c : Constant)
    (hScan : Token.scan s.input = .ok ts) (hStart : s.input ≠ Buffer.start)
    (h : last ∈ s.input.getLast?) (hLast : ¬PrecedesOperand last) :
    Token.scan (s.typeConstant c).input = .ok (ts ++ [Token.operator .mul, .constant c]) := by
  rw [typeConstant, input_edit, Buffer.placeOperand_of_not_precedes hStart h hLast]
  refine Token.scan_append_times_symbol c hScan fun hAsterisk => hLast ?_
  obtain rfl : last = '*' := Option.some.inj (h.symm.trans hAsterisk)
  decide

/-- The constant key completes what lacks an operand if the buffer ends with an ASCII operator or an
opening parenthesis; behind any other last character it types a misplaced asterisk. Onto an
expression it multiplies the constant, but it replaces a lone zero. -/
theorem scan_typeConstant (c : Constant) (hScan : Token.scan s.input = .ok ts) :
    let alone := ts ++ [Token.constant c]
    let times := ts ++ [Token.operator .mul, .constant c]
    (Expr.parse ts = .error .incomplete → Token.FreeOfEmptyGroups ts →
      ∀ last ∈ s.input.getLast?, PrecedesOperand last →
        Token.scan (s.typeConstant c).input = .ok alone ∧ ∃ e, Expr.parse alone = .ok e) ∧
    (s.input ≠ Buffer.start → (∃ e, Expr.parse ts = .ok e) →
      Token.scan (s.typeConstant c).input = .ok times ∧ ∃ e, Expr.parse times = .ok e) ∧
    (Expr.parse ts = .error .incomplete → Token.FreeOfEmptyGroups ts →
      ∀ last ∈ s.input.getLast?, ¬PrecedesOperand last →
        Token.scan (s.typeConstant c).input = .ok times ∧
          Expr.parse times = .error (.malformed (.misplacedOperator .mul))) := by
  intro alone times
  refine ⟨?_, ?_, ?_⟩
  · intro hParse hFree last h hLast
    rw [typeConstant, input_edit, Buffer.placeOperand_of_precedes h hLast]
    exact ⟨Token.scan_append_symbol c hScan h hLast,
      (Expr.exists_parse_append_operand_iff rfl).mpr ⟨hParse, hFree⟩⟩
  · rintro hStart ⟨e, hParse⟩
    refine ⟨?_, Expr.exists_parse_append_factor rfl hParse⟩
    obtain ⟨last, h, hLast⟩ := Expr.exists_last_of_parse hScan hParse
    exact scan_typeConstant_of_not_precedes c hScan hStart h hLast
  · intro hParse hFree last h hLast
    have hStart : s.input ≠ Buffer.start := by
      intro hStart
      have hZero : Token.Scans Buffer.start [.number .zero] := Display.isNumeral_zero.alone
      rw [hStart, Token.scan, hZero] at hScan
      cases hScan
      cases hParse
    exact ⟨scan_typeConstant_of_not_precedes c hScan hStart h hLast,
      Expr.parse_append_factor_of_incomplete hParse hFree⟩

/-- The circle constant behind a plus, behind a number and behind the display sign of a product. -/
theorem scan_typeConstant_pi :
    let two := Token.number (.ofNat 2)
    let sum := new.load "2+".toList
    let number := new.load "2".toList
    let product := new.load "2×".toList
    Token.scan sum.input = .ok [two, .operator .add] ∧ Token.scan number.input = .ok [two] ∧
      Token.scan product.input = .ok [two, .operator .mul] ∧
      Token.scan (sum.typeConstant .pi).input = .ok [two, .operator .add, .constant .pi] ∧
      (∃ e, Expr.parse [two, .operator .add, .constant .pi] = .ok e) ∧
      Token.scan (number.typeConstant .pi).input = .ok [two, .operator .mul, .constant .pi] ∧
      (∃ e, Expr.parse [two, .operator .mul, .constant .pi] = .ok e) ∧
      Token.scan (product.typeConstant .pi).input =
        .ok [two, .operator .mul, .operator .mul, .constant .pi] ∧
      Expr.parse [two, .operator .mul, .operator .mul, .constant .pi] =
        .error (.malformed (.misplacedOperator .mul)) := by
  intro two sum number product
  have hSum : Token.scan sum.input = .ok [two, .operator .add] := by decide +kernel
  have hNumber : Token.scan number.input = .ok [two] := by decide +kernel
  have hProduct : Token.scan product.input = .ok [two, .operator .mul] := by decide +kernel
  have hSumRun : Parser.run (.operand []) [two, .operator .add] = .ok _ := rfl
  have hProductRun : Parser.run (.operand []) [two, .operator .mul] = .ok _ := rfl
  obtain ⟨hAlone, -, -⟩ := scan_typeConstant .pi hSum
  obtain ⟨-, hTimes, -⟩ := scan_typeConstant .pi hNumber
  obtain ⟨-, -, hMisplaced⟩ := scan_typeConstant .pi hProduct
  obtain ⟨hScan, hParse⟩ :=
    hAlone rfl (Parser.freeOfEmptyGroups_of_run hSumRun) '+' rfl (by decide)
  obtain ⟨hScan', hParse'⟩ := hTimes (by decide) ⟨_, rfl⟩
  obtain ⟨hScan'', hParse''⟩ :=
    hMisplaced rfl (Parser.freeOfEmptyGroups_of_run hProductRun) '×' rfl (by decide)
  exact ⟨hSum, hNumber, hProduct, hScan, hParse, hScan', hParse', hScan'', hParse''⟩

/-- A constant typed behind `2×` is not the operand that the product lacks. -/
theorem not_scan_typeConstant_append :
    ¬ ∀ (s : Session) (ts : List Token) (c : Constant), Reachable s →
      Token.scan s.input = .ok ts → Expr.parse ts = .error .incomplete →
      Token.FreeOfEmptyGroups ts →
        Token.scan (s.typeConstant c).input = .ok (ts ++ [Token.constant c]) := by
  intro h
  have hRun : Parser.run (.operand []) [.number (.ofNat 2), .operator .mul] = .ok _ := rfl
  have hScan := h (new.load "2×".toList) _ .pi (Reachable.new.load _) (by decide +kernel) rfl
    (Parser.freeOfEmptyGroups_of_run hRun)
  revert hScan
  decide +kernel

end Session

end Calculator
