import Calculator.Proofs.DegreesAsRadians
import Calculator.Proofs.DepthLimit
import Calculator.Proofs.SessionSteps
import Calculator.Proofs.TrimmedText
import Calculator.Proofs.TypedOperand

/-! Toggling the sign of a buffer. A minus at the front of a text belongs to the text's first
factor, so two of them take each other back, whatever follows; where the whole text is one factor,
one of them negates the value. The factor then lies one level deeper, which is all that can go
wrong. -/

namespace Calculator

/-! ### Signs in the grammar -/

namespace Derives

variable {limit depth : Nat} {kind : Phrase} {ts rest : List Token} {op : Operator} {e : Expr}

theorem ne_operator_of_atom (h : Derives limit .atom depth ts e) : ts ≠ .operator op :: rest := by
  rintro rfl
  cases h

/-- A power has no sign in front of it. -/
theorem ne_operator_of_power (h : Derives limit .power depth ts e) : ts ≠ .operator op :: rest := by
  cases h with
  | atom hAtom => exact hAtom.ne_operator_of_atom
  | exponent hBase _ =>
    obtain ⟨t, after, rfl, -⟩ := hBase.exists_cons
    intro hTokens
    rw [List.cons_append, List.cons.injEq] at hTokens
    exact hBase.ne_operator_of_atom (by rw [hTokens.1])

/-- A factor behind a minus lies one level deeper. -/
theorem exists_of_minus (h : Derives limit .signed depth (.operator .sub :: ts) e) :
    ∃ arg, e = .neg arg ∧ Derives limit .signed (depth + 1) ts arg := by
  cases h with
  | power hPower => exact absurd rfl hPower.ne_operator_of_power
  | minus hArg => exact ⟨_, rfl, hArg⟩

/-- The tokens start with a factor whose place every other factor can take; what the whole comes to
depends on what its first factor does. -/
def HasFirst (limit : Nat) (kind : Phrase) (depth : Nat) (ts : List Token) (e : Expr) : Prop :=
  ∃ first rest f, ts = first ++ rest ∧ Derives limit .signed depth first f ∧
    ∀ first' f', Derives limit .signed depth first' f' →
      ∃ e', Derives limit kind depth (first' ++ rest) e' ∧
        ∀ angle, f'.eval angle = f.eval angle → e'.eval angle = e.eval angle

theorem hasFirst_of_signed (h : Derives limit .signed depth ts e) (hKind : 2 ≤ kind.rank) :
    HasFirst limit kind depth ts e := by
  refine ⟨ts, [], e, (List.append_nil ts).symm, h, fun first f hFactor => ?_⟩
  rw [List.append_nil]
  exact ⟨f, hFactor.loosen hKind, fun _ hEval => hEval⟩

theorem HasFirst.binary {kind' : Phrase} {us : List Token} {lhs rhs : Expr}
    (h : HasFirst limit kind depth ts lhs)
    (hBinary : ∀ {ts lhs}, Derives limit kind depth ts lhs →
      Derives limit kind' depth (ts ++ .operator op :: us) (.binary op lhs rhs)) :
    HasFirst limit kind' depth (ts ++ .operator op :: us) (.binary op lhs rhs) := by
  obtain ⟨first, rest, f, rfl, hFirst, hPlace⟩ := h
  refine ⟨first, rest ++ .operator op :: us, f, List.append_assoc .., hFirst, ?_⟩
  intro first' f' hFactor
  obtain ⟨lhs', hLeft, hEval⟩ := hPlace first' f' hFactor
  refine ⟨.binary op lhs' rhs, ?_, fun angle hSame => ?_⟩
  · rw [← List.append_assoc]
    exact hBinary hLeft
  · rw [Expr.eval, Expr.eval, hEval angle hSame]

/-- Sums, products and factors start with a factor. -/
theorem hasFirst (h : Derives limit kind depth ts e) (hKind : 2 ≤ kind.rank) :
    HasFirst limit kind depth ts e := by
  induction h with
  | number | constant | group | call | atom | exponent => simp [Phrase.rank] at hKind
  | power hPower _ => exact hasFirst_of_signed (.power hPower) hKind
  | minus hArg _ => exact hasFirst_of_signed (.minus hArg) hKind
  | plus hArg _ => exact hasFirst_of_signed (.plus hArg) hKind
  | signed hFactor _ => exact hasFirst_of_signed hFactor hKind
  | product _ ih =>
    obtain ⟨first, rest, f, hTokens, hFirst, hPlace⟩ := ih (by decide)
    refine ⟨first, rest, f, hTokens, hFirst, fun first' f' hFactor => ?_⟩
    obtain ⟨e', hProduct, hEval⟩ := hPlace first' f' hFactor
    exact ⟨e', hProduct.product, hEval⟩
  | factor hOp _ hRight ihLeft _ => exact (ihLeft (by decide)).binary (.factor hOp · hRight)
  | term hOp _ hRight ihLeft _ => exact (ihLeft (by decide)).binary (.term hOp · hRight)

end Derives

theorem Expr.eval_neg_neg (angle : Angle) (e : Expr) :
    (neg (neg e)).eval angle = e.eval angle := by
  rw [eval_neg, eval_neg]
  cases e.eval angle with
  | error fault => rfl
  | ok x => exact congrArg Except.ok (Binary64.neg_neg x)

/-- Two signs at the front take each other back. -/
theorem Derives.exists_of_minus_minus {limit depth : Nat} {ts : List Token} {e : Expr}
    (h : Derives limit .sum depth (.operator .sub :: .operator .sub :: ts) e) :
    ∃ e', Derives limit .sum depth ts e' ∧ ∀ angle, e'.eval angle = e.eval angle := by
  obtain ⟨first, rest, f, hTokens, hFirst, hPlace⟩ := h.hasFirst (by decide)
  obtain ⟨t, behind, rfl, -⟩ := hFirst.exists_cons
  rw [List.cons_append, List.cons.injEq] at hTokens
  obtain ⟨rfl, hTokens⟩ := hTokens
  obtain ⟨arg, rfl, hArg⟩ := hFirst.exists_of_minus
  obtain ⟨t, behind, rfl, -⟩ := hArg.exists_cons
  rw [List.cons_append, List.cons.injEq] at hTokens
  obtain ⟨rfl, rfl⟩ := hTokens
  obtain ⟨inner, rfl, hInner⟩ := hArg.exists_of_minus
  obtain ⟨e', hSum, hEval⟩ := hPlace behind inner (hInner.shift (by omega))
  exact ⟨e', hSum, fun angle => hEval angle (Expr.eval_neg_neg angle inner).symm⟩

/-! ### Signs in the text -/

namespace Token

/-- A minus is a token by itself. -/
theorem scan_minus_eq_ok_iff {s : Text} {us : List Token} :
    scan ('-' :: s) = .ok us ↔ ∃ ts, scan s = .ok ts ∧ us = .operator .sub :: ts := by
  constructor
  · intro h
    have hNext : next 0 '-' s = .ok (.operator .sub, s) :=
      next_eq_ok_iff.mpr (.sign (by decide) (by decide) rfl)
    rw [scan, scanAt_of_next 0 (by decide) hNext] at h
    cases hRest : scanAt (0 + (s.length + 1 - s.length)) s with
    | error fault =>
      rw [hRest] at h
      cases h
    | ok ts =>
      rw [hRest] at h
      exact ⟨ts, (scanAt_eq_ok_iff _ 0).mp hRest, (Except.ok.inj h).symm⟩
  · rintro ⟨ts, hScan, rfl⟩
    have hRest : Scans s ts := fun position => (scanAt_eq_ok_iff 0 position).mp hScan
    exact hRest.minus 0

end Token

/-- Two minuses in front of a text change nothing about its value. -/
theorem evaluate_of_minus_minus {angle : Angle} {s : Text} {v : Binary64}
    (h : evaluate angle ('-' :: '-' :: s) = .value v) : evaluate angle s = .value v := by
  rw [evaluate_eq_value_iff, evalText_eq_ok_iff] at h ⊢
  obtain ⟨⟨_, e, hScan, hParse, hEval⟩, hFinite⟩ := h
  obtain ⟨_, hMinus, rfl⟩ := Token.scan_minus_eq_ok_iff.mp hScan
  obtain ⟨ts, hRest, rfl⟩ := Token.scan_minus_eq_ok_iff.mp hMinus
  obtain ⟨k, hSum⟩ := Expr.exists_derives_of_parse hParse
  obtain ⟨e', hSum, hSame⟩ := Derives.exists_of_minus_minus hSum
  exact ⟨⟨ts, e', hRest, Expr.parse_of_derives hSum, (hSame angle).trans hEval⟩, hFinite⟩

/-! ### A text that is one factor -/

/-- The tokens are one factor once the groups that are open at their end are closed: signs, and
behind them an operand that may have an exponent. No operand lies under more than `limit` groups,
signs and exponents. -/
def Token.IsFactor (limit : Nat) (ts : List Token) : Prop :=
  ∃ k e, Derives limit .signed 0 (ts ++ List.replicate k .closeParen) e

section

variable {angle : Angle} {s : Text} {ts : List Token} {e : Expr} {v : Binary64}

theorem Token.IsFactor.mono {limit limit' : Nat} (h : Token.IsFactor limit ts)
    (hLimit : limit ≤ limit') : Token.IsFactor limit' ts := by
  obtain ⟨k, e, hFactor⟩ := h
  exact ⟨k, e, hFactor.shift (Nat.add_le_add_left hLimit 0)⟩

theorem Token.IsFactor.exists_derives {limit : Nat} (h : Token.IsFactor limit ts)
    (hLimit : limit ≤ Parser.depthLimit) (hParse : Expr.parse ts = .ok e) :
    ∃ k, Derives limit .signed 0 (ts ++ List.replicate k .closeParen) e := by
  obtain ⟨k, e', hFactor⟩ := h
  have hParse' : Expr.parse ts = .ok e' := Expr.parse_of_derives_of_room hFactor (by omega)
  obtain rfl : e = e' := Except.ok.inj (hParse.symm.trans hParse')
  exact ⟨k, hFactor⟩

theorem Expr.eval_neg_eq_ok_iff : (neg e).eval angle = .ok v ↔ e.eval angle = .ok (-v) := by
  rw [eval_neg]
  cases e.eval angle with
  | error fault => simp [Except.map]
  | ok x =>
    have hNeg : -x = v ↔ x = -v :=
      ⟨fun h => h ▸ (Binary64.neg_neg x).symm, fun h => h ▸ Binary64.neg_neg v⟩
    simpa [Except.map] using hNeg

/-- Without the minus at its front a factor has the opposite value. -/
theorem evaluate_of_minus (h : evaluate angle ('-' :: s) = .value v)
    (hScan : Token.scan ('-' :: s) = .ok ts) (hFactor : Token.IsFactor Parser.depthLimit ts) :
    evaluate angle s = .value (-v) := by
  rw [evaluate_eq_value_iff, evalText_eq_ok_iff] at h ⊢
  obtain ⟨⟨us, e, hScan', hParse, hEval⟩, hFinite⟩ := h
  obtain rfl : ts = us := Except.ok.inj (hScan.symm.trans hScan')
  obtain ⟨k, hSigned⟩ := hFactor.exists_derives le_rfl hParse
  obtain ⟨rest, hRest, rfl⟩ := Token.scan_minus_eq_ok_iff.mp hScan
  obtain ⟨arg, rfl, hArg⟩ := hSigned.exists_of_minus
  have hParse : Expr.parse rest = .ok arg := Expr.parse_of_derives_of_room hArg (by omega)
  exact ⟨⟨rest, arg, hRest, hParse, Expr.eval_neg_eq_ok_iff.mp hEval⟩,
    by rwa [Binary64.isFinite_neg]⟩

/-- A minus at the front of a factor negates its value, unless something in it then lies too deep.
Nothing does if there is room for one more level. -/
theorem evaluate_minus (h : evaluate angle s = .value v) (hScan : Token.scan s = .ok ts) :
    (Token.IsFactor Parser.depthLimit ts →
      evaluate angle ('-' :: s) = .value (-v) ∨
        evaluate angle ('-' :: s) = .malformed
          (ParseError.malformed SyntaxFault.tooDeep).message) ∧
    (Token.IsFactor (Parser.depthLimit - 1) ts → evaluate angle ('-' :: s) = .value (-v)) := by
  rw [evaluate_eq_value_iff, evalText_eq_ok_iff] at h
  obtain ⟨⟨us, e, hScan', hParse, hEval⟩, hFinite⟩ := h
  obtain rfl : ts = us := Except.ok.inj (hScan.symm.trans hScan')
  have hMinus : Token.scan ('-' :: s) = .ok (.operator .sub :: ts) :=
    Token.scan_minus_eq_ok_iff.mpr ⟨ts, hScan, rfl⟩
  have hValue (hNeg : Expr.parse (.operator .sub :: ts) = .ok (.neg e)) :
      evaluate angle ('-' :: s) = .value (-v) := by
    rw [evaluate_eq_value_iff, evalText_eq_ok_iff, Binary64.isFinite_neg]
    refine ⟨⟨_, _, hMinus, hNeg, Expr.eval_neg_eq_ok_iff.mpr ?_⟩, hFinite⟩
    rwa [Binary64.neg_neg]
  constructor
  · intro hFactor
    obtain ⟨k, hSigned⟩ := hFactor.exists_derives le_rfl hParse
    have hSum : Derives (Parser.depthLimit + 1) .sum 0
        (.operator .sub :: ts ++ List.replicate k .closeParen) (.neg e) :=
      (Derives.minus (hSigned.shift (by omega))).signed.product
    refine (Expr.parse_of_derives_or_tooDeep hSum).imp hValue fun hTooDeep => ?_
    rw [evaluate, evalText_of_parse_error angle hMinus hTooDeep]
    rfl
  · intro hFactor
    obtain ⟨k, hSigned⟩ := hFactor.exists_derives (Nat.sub_le _ 1) hParse
    have hNeg : Derives Parser.depthLimit .signed 0
        (.operator .sub :: ts ++ List.replicate k .closeParen) (.neg e) :=
      .minus (hSigned.shift (by decide))
    exact hValue (Expr.parse_of_derives_of_room hNeg (by omega))

end

namespace Buffer

variable {input : Text}

theorem toggleSign_of_ne (h : ∀ rest, input ≠ '-' :: rest) : toggleSign input = '-' :: input := by
  unfold toggleSign
  split
  · rename_i rest
    exact absurd rfl (h rest)
  · rfl

/-- Only of a buffer with two minuses at its front do two toggles not leave the same text. -/
theorem toggleSign_toggleSign (h : ∀ rest, input ≠ '-' :: '-' :: rest) :
    toggleSign (toggleSign input) = input := by
  by_cases hMinus : ∃ rest, input = '-' :: rest
  · obtain ⟨rest, rfl⟩ := hMinus
    refine toggleSign_of_ne fun after hRest => h after ?_
    rw [show rest = '-' :: after from hRest]
  · rw [toggleSign_of_ne (not_exists.mp hMinus)]
    rfl

end Buffer

namespace Session

variable {s : Session} {v : Binary64}

/-- The sign button negates. Pressed twice it gives a buffer of the same value, bit for bit. Pressed
once on a buffer that is one factor it gives one of the opposite value, unless an operand then lies
under more than 256 groups, signs and exponents; it never does if none lay under more than 255. -/
theorem outcome_press_toggleSign (h : s.outcome = .value v) :
    ((s.press .toggleSign).press .toggleSign).outcome = .value v ∧
    ∀ ts, Token.scan s.input = .ok ts →
      (Token.IsFactor 256 ts →
        (s.press .toggleSign).outcome = .value (-v) ∨
          (s.press .toggleSign).outcome =
            .malformed "malformed expression: expression nested too deeply".toList) ∧
      (Token.IsFactor 255 ts → (s.press .toggleSign).outcome = .value (-v)) := by
  have hOnce : (s.press .toggleSign).outcome = evaluate s.angle (Buffer.toggleSign s.input) := rfl
  have hTwice : ((s.press .toggleSign).press .toggleSign).outcome =
      evaluate s.angle (Buffer.toggleSign (Buffer.toggleSign s.input)) := rfl
  have hValue : evaluate s.angle s.input = .value v := h
  rw [hOnce, hTwice]
  generalize s.input = input at hValue
  constructor
  · by_cases hMinuses : ∃ rest, input = '-' :: '-' :: rest
    · obtain ⟨rest, rfl⟩ := hMinuses
      exact evaluate_of_minus_minus hValue
    · rwa [Buffer.toggleSign_toggleSign (not_exists.mp hMinuses)]
  · intro ts hScan
    by_cases hMinus : ∃ rest, input = '-' :: rest
    · obtain ⟨rest, rfl⟩ := hMinus
      have hNegated := evaluate_of_minus hValue hScan
      exact ⟨fun hFactor => .inl (hNegated hFactor),
        fun hFactor => hNegated (hFactor.mono (by decide))⟩
    · rw [Buffer.toggleSign_of_ne (not_exists.mp hMinus)]
      exact evaluate_minus hValue hScan

/-- A sum in a group that is left open. -/
theorem outcome_press_toggleSign_of_sum :
    let s := new.load "-(1+2".toList
    s.outcome = .value (-.ofNat 3) ∧ (s.press .toggleSign).outcome = .value (- -.ofNat 3) ∧
      ((s.press .toggleSign).press .toggleSign).outcome = .value (-.ofNat 3) := by
  intro s
  have hValue : s.outcome = .value (-.ofNat 3) := by decide +kernel
  have hScan : Token.scan s.input = .ok [.operator .sub, .openParen, .number (.ofNat 1),
      .operator .add, .number (.ofNat 2)] := by
    decide +kernel
  have hFactor : Token.IsFactor 255 [.operator .sub, .openParen, .number (.ofNat 1),
      .operator .add, .number (.ofNat 2)] := by
    have hNumber (x : Binary64) : Derives 255 .atom 2 [.number x] (.number x) :=
      .number x (by decide)
    have hSum : Derives 255 .sum 2 [.number (.ofNat 1), .operator .add, .number (.ofNat 2)]
        (.binary .add (.number (.ofNat 1)) (.number (.ofNat 2))) :=
      .binary .add ((hNumber _).loosen (by decide)) ((hNumber _).loosen (by decide))
    exact ⟨1, _, .minus (.power (.atom (.group hSum)))⟩
  obtain ⟨hTwice, hOnce⟩ := outcome_press_toggleSign hValue
  exact ⟨hValue, (hOnce _ hScan).2 hFactor, hTwice⟩

end Session

end Calculator
