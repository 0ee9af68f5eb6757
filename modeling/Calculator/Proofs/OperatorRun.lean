import Calculator.Proofs.BufferStart

/-! A run of operator keys behind an operand. Each key may replace what the keys before it have
typed, so the run leaves one operator, or one operator with the sign of the next operand. Which of
them it leaves is told by the last operator and the last one that is not a minus. -/

namespace Calculator

namespace Buffer

variable {input rest : Text} {c : Char} {op signed : Operator} {ops : List Operator}

/-- The last operator of a run that is not a minus, if a minus behind it is a sign. -/
def signedOperator? (ops : List Operator) : Option Operator :=
  (ops.filter (· ≠ .sub)).getLast?.filter (takesSign ·.symbol)

/-- What a run of operators leaves behind an operand: its last one, and in front of a last minus the
operator that it is the sign behind. -/
def operatorRun (ops : List Operator) : Text :=
  match ops.getLast?, signedOperator? ops with
  | some .sub, some signed => [signed.symbol, '-']
  | some last, _ => [last.symbol]
  | none, _ => []

theorem signedOperator?_concat_sub (ops : List Operator) :
    signedOperator? (ops ++ [.sub]) = signedOperator? ops := by
  simp [signedOperator?]

theorem signedOperator?_concat (h : op ≠ .sub) :
    signedOperator? (ops ++ [op]) = if takesSign op.symbol then some op else none := by
  simp [signedOperator?, h, Option.filter_some]

theorem operatorRun_concat (h : op ≠ .sub) : operatorRun (ops ++ [op]) = [op.symbol] := by
  simp [operatorRun, h]

theorem operatorRun_concat_of_none (op : Operator) (h : signedOperator? ops = none) :
    operatorRun (ops ++ [op]) = [op.symbol] := by
  by_cases hMinus : op = .sub
  · rw [hMinus]
    simp [operatorRun, signedOperator?_concat_sub, h]
  · exact operatorRun_concat hMinus

theorem operatorRun_concat_sub (h : signedOperator? ops = some signed) :
    operatorRun (ops ++ [.sub]) = [signed.symbol, '-'] := by
  simp [operatorRun, signedOperator?_concat_sub, h]

theorem takesSign_of_signedOperator? (h : signedOperator? ops = some signed) :
    takesSign signed.symbol = true :=
  (Option.filter_eq_some_iff.mp h).2

/-- A run without an operator that takes a sign leaves at most one operator. -/
theorem operatorRun_of_none (h : signedOperator? ops = none) :
    operatorRun ops = [] ∨
      ∃ op : Operator, operatorRun ops = [op.symbol] ∧ takesSign op.symbol = false := by
  rcases List.eq_nil_or_concat ops with rfl | ⟨before, last, rfl⟩
  · exact .inl rfl
  · rw [List.concat_eq_append] at *
    right
    by_cases hMinus : last = .sub
    · subst hMinus
      rw [signedOperator?_concat_sub] at h
      exact ⟨.sub, operatorRun_concat_of_none .sub h, rfl⟩
    · refine ⟨last, operatorRun_concat hMinus, ?_⟩
      simpa [signedOperator?_concat hMinus] using h

/-- A run with an operator that takes a sign leaves it, alone or with the sign. -/
theorem operatorRun_of_some (h : signedOperator? ops = some signed) :
    operatorRun ops = [signed.symbol] ∨ operatorRun ops = [signed.symbol, '-'] := by
  rcases List.eq_nil_or_concat ops with rfl | ⟨before, last, rfl⟩
  · cases h
  · rw [List.concat_eq_append] at *
    by_cases hMinus : last = .sub
    · subst hMinus
      rw [signedOperator?_concat_sub] at h
      exact .inr (operatorRun_concat_sub h)
    · rw [signedOperator?_concat hMinus] at h
      split at h
      · cases h
        exact .inl (operatorRun_concat hMinus)
      · cases h

/-! ### One key -/

theorem takesSign_eq_false (h : isOperator c = false) : takesSign c = false := by
  cases hSign : takesSign c with
  | false => rfl
  | true =>
    rw [isOperator_of_takesSign hSign] at h
    cases h

theorem typeOperatorReversed_of_ne_minus (op : Operator) (h : c ≠ '-') :
    typeOperatorReversed op (c :: rest) =
      if takesSign c ∧ op = .sub then op.symbol :: c :: rest
      else if isOperator c then op.symbol :: rest
      else op.symbol :: c :: rest := by
  rw [typeOperatorReversed]
  · simp
  · rintro before others rfl
    exact fun _ => h rfl

/-- A minus that is no sign is replaced like every operator. -/
theorem typeOperatorReversed_minus (op : Operator) (h : ∀ c ∈ rest.head?, takesSign c = false) :
    typeOperatorReversed op ('-' :: rest) = op.symbol :: rest := by
  cases rest with
  | nil => rfl
  | cons before rest =>
    rw [typeOperatorReversed, h before rfl]
    rfl

theorem typeOperator_sign (h : takesSign c = true) :
    typeOperator (input ++ [c]) .sub = input ++ [c, '-'] := by
  have hMinus : c ≠ '-' := by
    rintro rfl
    cases h
  simp [typeOperator, typeOperatorReversed_of_ne_minus .sub hMinus, h, Operator.symbol]

theorem typeOperator_signed (op : Operator) (h : takesSign c = true) :
    typeOperator (input ++ [c, '-']) op =
      input ++ if op = .sub then [c, '-'] else [op.symbol] := by
  by_cases hMinus : op = .sub
  · simp [typeOperator, typeOperatorReversed, h, hMinus]
  · simp [typeOperator, typeOperatorReversed, h, hMinus]

section Operand

variable (hOperand : ∀ c ∈ input.getLast?, isOperator c = false)

include hOperand

theorem typeOperator_operand (op : Operator) : typeOperator input op = input ++ [op.symbol] := by
  rcases List.eq_nil_or_concat input with rfl | ⟨front, c, rfl⟩
  · rfl
  · rw [List.concat_eq_append] at *
    have hLast : isOperator c = false := hOperand c (by simp)
    have hMinus : c ≠ '-' := by
      rintro rfl
      exact absurd hLast (by decide)
    simp [typeOperator, typeOperatorReversed_of_ne_minus op hMinus, hLast, takesSign_eq_false hLast]

/-- One operator behind an operand is replaced, unless a minus is its sign. -/
theorem typeOperator_symbol {last : Operator} (op : Operator)
    (h : ¬(takesSign last.symbol = true ∧ op = .sub)) :
    typeOperator (input ++ [last.symbol]) op = input ++ [op.symbol] := by
  have hReversed :
      typeOperatorReversed op (last.symbol :: input.reverse) = op.symbol :: input.reverse := by
    by_cases hMinus : last.symbol = '-'
    · rw [hMinus]
      apply typeOperatorReversed_minus
      rw [List.head?_reverse]
      exact fun c hLast => takesSign_eq_false (hOperand c hLast)
    · rw [typeOperatorReversed_of_ne_minus op hMinus, if_neg h, if_pos (isOperator_symbol last)]
  rw [typeOperator, List.reverse_append, List.reverse_singleton, List.singleton_append, hReversed,
    List.reverse_cons, List.reverse_reverse]

/-- One more key behind a run leaves what the longer run leaves. -/
theorem typeOperator_append_operatorRun (ops : List Operator) (op : Operator) :
    typeOperator (input ++ operatorRun ops) op = input ++ operatorRun (ops ++ [op]) := by
  cases hSigned : signedOperator? ops with
  | none =>
    rw [operatorRun_concat_of_none op hSigned]
    rcases operatorRun_of_none hSigned with hNone | ⟨last, hLast, hSign⟩
    · rw [hNone, List.append_nil]
      exact typeOperator_operand hOperand op
    · rw [hLast]
      exact typeOperator_symbol hOperand op (by simp [hSign])
  | some signed =>
    have hSign := takesSign_of_signedOperator? hSigned
    by_cases hMinus : op = .sub
    · subst hMinus
      rw [operatorRun_concat_sub hSigned]
      rcases operatorRun_of_some hSigned with hAlone | hBoth
      · rw [hAlone]
        exact typeOperator_sign hSign
      · rw [hBoth, typeOperator_signed _ hSign, if_pos rfl]
    · rw [operatorRun_concat hMinus]
      rcases operatorRun_of_some hSigned with hAlone | hBoth
      · rw [hAlone]
        exact typeOperator_symbol hOperand op fun h => hMinus h.2
      · rw [hBoth, typeOperator_signed _ hSign, if_neg hMinus]

end Operand

end Buffer

namespace Session

variable {s : Session}

theorem performAll_concat (s : Session) (operations : List Operation) (operation : Operation) :
    s.performAll (operations ++ [operation]) = (s.performAll operations).perform operation :=
  List.foldl_concat ..

/-- Operators typed one after another behind an operand, or behind the result of a commit, leave
what their run leaves. -/
theorem input_performAll_operators (h : Reachable s)
    (hOperand : ∀ c ∈ s.input.getLast?, Buffer.isOperator c = false) (ops : List Operator) :
    (s.performAll (ops.map .operator)).input = s.input ++ Buffer.operatorRun ops := by
  induction ops using List.reverseRecOn with
  | nil => exact (List.append_nil s.input).symm
  | append_singleton ops op ih =>
    have hFresh := (h.performAll (ops.map .operator)).fresh
    rw [List.map_append, List.map_singleton, performAll_concat, perform, typeOperator, input_edit,
      hFresh.getD_committed, ih]
    exact Buffer.typeOperator_append_operatorRun hOperand ops op

/-- From the result `8`, the last minus is the sign behind the quotient, not behind the product. -/
theorem input_performAll_operators_of_result :
    ((new.performAll [.digit '8', .commit]).performAll
      ([Operator.mul, .sub, .div, .sub, .sub].map .operator)).input = "8/-".toList := by
  have hReachable : Reachable (new.performAll [.digit '8', .commit]) := Reachable.new.performAll _
  have hInput : (new.performAll [.digit '8', .commit]).input = ['8'] := by decide +kernel
  have hOperand : Buffer.isOperator '8' = false := by decide
  rw [input_performAll_operators hReachable (by rw [hInput]; simpa using hOperand), hInput]
  decide

end Session

end Calculator
