import Calculator.Proofs.ExprText
import Calculator.Proofs.Incomplete

/-! What the limit on depth takes away from the grammar. A phrase under some limit is the same
phrase wherever as much room is left; the parser accepts it where its own limit leaves the room, and
gives up on it as nested too deeply where not. No other fault comes first. -/

namespace Calculator

theorem Operator.leftPhrase_of_ne_pow {op : Operator} (h : op ≠ .pow) :
    op.leftPhrase = op.phrase := by
  cases op <;> first | rfl | exact absurd rfl h

namespace Derives

variable {limit limit' depth depth' : Nat} {kind : Phrase} {ts : List Token} {e : Expr}

/-- A phrase is one at every depth and under every limit that leave as much room. -/
theorem shift (h : Derives limit kind depth ts e) (hRoom : depth' + limit ≤ depth + limit') :
    Derives limit' kind depth' ts e := by
  induction h generalizing depth' with
  | number x hDepth => exact .number x (by omega)
  | constant c hDepth => exact .constant c (by omega)
  | group _ ih => exact .group (ih (by omega))
  | call f _ ih => exact .call f (ih (by omega))
  | atom _ ih => exact .atom (ih hRoom)
  | exponent _ _ ihBase ihExponent => exact .exponent (ihBase hRoom) (ihExponent (by omega))
  | power _ ih => exact .power (ih hRoom)
  | minus _ ih => exact .minus (ih (by omega))
  | plus _ ih => exact .plus (ih (by omega))
  | signed _ ih => exact .signed (ih hRoom)
  | factor hOp _ _ ihLeft ihRight => exact .factor hOp (ihLeft hRoom) (ihRight hRoom)
  | product _ ih => exact .product (ih hRoom)
  | term hOp _ _ ihLeft ihRight => exact .term hOp (ihLeft hRoom) (ihRight hRoom)

end Derives

namespace Parser

variable {stack : List Pending} {ts us : List Token} {lhs rhs e : Expr} {kind : Phrase}

/-- The tokens are a phrase under the parser's limit, or the parser gives up on them. -/
def DerivesOrTooDeep (kind : Phrase) (stack : List Pending) (ts : List Token) (e : Expr) : Prop :=
  Derives depthLimit kind (depth stack) ts e ∨
    run (.operand stack) ts = .error (.malformed .tooDeep)

namespace DerivesOrTooDeep

theorem group {p : Pending} {opener : Token}
    (hOpener : step (.operand stack) opener = .ok (.opened (p :: stack)))
    (hFirst : ∃ t rest, ts = t :: rest ∧ t ≠ .closeParen)
    (hContent : depth (p :: stack) ≤ depthLimit → DerivesOrTooDeep .sum (p :: stack) ts e)
    (hAtom : Derives depthLimit .sum (depth (p :: stack)) ts e →
      Derives depthLimit .atom (depth stack) (opener :: ts ++ [.closeParen]) (p.fill e)) :
    DerivesOrTooDeep .atom stack (opener :: ts ++ [.closeParen]) (p.fill e) := by
  by_cases h : Derives depthLimit .sum (depth (p :: stack)) ts e
  · exact .inl (hAtom h)
  · exact .inr (run_group_tooDeep hOpener hFirst fun hRoom => (hContent hRoom).resolve_left h)

theorem sign {p : Pending} {op : Operator}
    (hSign : step (.operand stack) (.operator op) = descend (p :: stack))
    (hArg : depth (p :: stack) ≤ depthLimit → DerivesOrTooDeep .signed (p :: stack) ts e)
    (hSigned : Derives depthLimit .signed (depth (p :: stack)) ts e →
      Derives depthLimit .signed (depth stack) (.operator op :: ts) (p.fill e)) :
    DerivesOrTooDeep .signed stack (.operator op :: ts) (p.fill e) := by
  by_cases h : Derives depthLimit .signed (depth (p :: stack)) ts e
  · exact .inl (hSigned h)
  · right
    rw [run_cons, hSign]
    exact run_descend_tooDeep _ fun hRoom => (hArg hRoom).resolve_left h

theorem binary {op : Operator} (hFits : Fits op.phrase stack)
    (hLeft : DerivesOrTooDeep op.leftPhrase stack ts lhs)
    (hRight : depth (.binary op lhs :: stack) ≤ depthLimit →
      Fits op.rightPhrase (.binary op lhs :: stack) →
      DerivesOrTooDeep op.rightPhrase (.binary op lhs :: stack) us rhs) :
    DerivesOrTooDeep op.phrase stack (ts ++ .operator op :: us) (.binary op lhs rhs) := by
  have hTakes : Fits op.rightPhrase (.binary op lhs :: stack) := fits_cons.mpr (Nat.le_refl _)
  rcases hLeft with hLeft | hTooDeep
  · by_cases h : Derives depthLimit op.rightPhrase (depth (.binary op lhs :: stack)) us rhs
    · rw [depth_cons] at h
      exact .inl (.binary op hLeft h)
    · right
      have hLeftFits : Fits op.leftPhrase stack := hFits.tighten (by cases op <;> decide)
      rw [(completes_of_derives hLeft rfl hLeftFits).run_operator (by cases op <;> decide) hFits]
      exact run_descend_tooDeep _ fun hRoom => (hRight hRoom hTakes).resolve_left h
  · exact .inr (run_append_of_error _ hTooDeep)

end DerivesOrTooDeep

/-- Where tokens are a phrase under some limit, nesting is all that the parser can object to. -/
theorem derivesOrTooDeep_of_derives {limit d : Nat} (h : Derives limit kind d ts e)
    (hDepth : depth stack ≤ depthLimit) (hFits : Fits kind stack) :
    DerivesOrTooDeep kind stack ts e := by
  induction h generalizing stack with
  | number x _ => exact .inl (.number x hDepth)
  | constant c _ => exact .inl (.constant c hDepth)
  | group hInner ih =>
    refine .group (p := .group) rfl hInner.exists_cons
      (fun hRoom => ih hRoom (fits_cons.mpr (by decide))) ?_
    rw [depth_cons]
    exact .group
  | call f hInner ih =>
    refine .group (p := .call f) rfl hInner.exists_cons
      (fun hRoom => ih hRoom (fits_cons.mpr (Nat.le_refl 4))) ?_
    rw [depth_cons]
    exact .call f
  | minus _ ih =>
    refine .sign (p := .minus) rfl (fun hRoom => ih hRoom (fits_cons.mpr (by decide))) ?_
    rw [depth_cons]
    exact .minus
  | plus _ ih =>
    refine .sign (p := .plus) rfl (fun hRoom => ih hRoom (fits_cons.mpr (by decide))) ?_
    rw [depth_cons]
    exact .plus
  | atom _ ih => exact (ih hDepth (hFits.tighten (by decide))).imp_left .atom
  | power _ ih => exact (ih hDepth (hFits.tighten (by decide))).imp_left .power
  | signed _ ih => exact (ih hDepth (hFits.tighten (by decide))).imp_left .signed
  | product _ ih => exact (ih hDepth (hFits.tighten (by decide))).imp_left .product
  | exponent _ _ ihBase ihExponent =>
    have hPower : Fits Operator.pow.phrase stack := hFits
    exact .binary hPower (ihBase hDepth (hFits.tighten (by decide))) ihExponent
  | factor hOp _ _ ihLeft ihRight =>
    obtain ⟨hPhrase, hRightPhrase, hPow⟩ := Operator.phrases_of_factor hOp
    have hLeftPhrase := Operator.leftPhrase_of_ne_pow hPow
    rw [← hPhrase] at hFits ihLeft ⊢
    rw [← hRightPhrase] at ihRight
    exact .binary hFits (hLeftPhrase ▸ ihLeft hDepth hFits) ihRight
  | term hOp _ _ ihLeft ihRight =>
    obtain ⟨hPhrase, hRightPhrase, hPow⟩ := Operator.phrases_of_term hOp
    have hLeftPhrase := Operator.leftPhrase_of_ne_pow hPow
    rw [← hPhrase] at hFits ihLeft ⊢
    rw [← hRightPhrase] at ihRight
    exact .binary hFits (hLeftPhrase ▸ ihLeft hDepth hFits) ihRight

/-- Closing parentheses nest nothing. -/
theorem step_closeParen_ne_tooDeep (state : State) :
    step state .closeParen ≠ .error (.malformed .tooDeep) := by
  cases state with
  | operand stack => simp [step, stepOperand]
  | opened stack => simp [step]
  | complete stack e =>
    simp only [step, stepComplete]
    split <;> simp

theorem run_closeParens_ne_tooDeep (state : State) (k : Nat) :
    run state (List.replicate k .closeParen) ≠ .error (.malformed .tooDeep) := by
  induction k generalizing state with
  | zero => simp
  | succ k ih =>
    rw [List.replicate_succ, run_cons]
    cases hStep : step state .closeParen with
    | error fault => exact fun h => step_closeParen_ne_tooDeep state (hStep.trans h)
    | ok next => exact ih next

end Parser

namespace Expr

open Calculator.Parser

/-- A phrase at some depth is accepted by itself if the limit there leaves no more room. -/
theorem parse_of_derives_of_room {limit d k : Nat} {kind : Phrase} {ts : List Token} {e : Expr}
    (h : Derives limit kind d (ts ++ List.replicate k .closeParen) e)
    (hRoom : limit ≤ d + depthLimit) : parse ts = .ok e := by
  have hPhrase : Derives depthLimit kind 0 (ts ++ List.replicate k .closeParen) e :=
    h.shift (by omega)
  exact parse_of_derives (hPhrase.loosen (by cases kind <;> decide))

/-- Tokens that are a sum under some limit, once closed, are accepted or nested too deeply. -/
theorem parse_of_derives_or_tooDeep {limit k : Nat} {ts : List Token} {e : Expr}
    (h : Derives limit .sum 0 (ts ++ List.replicate k .closeParen) e) :
    parse ts = .ok e ∨ parse ts = .error (.malformed .tooDeep) := by
  rcases derivesOrTooDeep_of_derives h (Nat.zero_le _) (fits_nil .sum) with hSum | hTooDeep
  · exact .inl (parse_of_derives hSum)
  · right
    rw [run_append] at hTooDeep
    cases hRun : run (.operand []) ts with
    | error fault =>
      rw [hRun] at hTooDeep
      obtain rfl : fault = .malformed .tooDeep := Except.error.inj hTooDeep
      exact parse_eq_of_run_error hRun
    | ok state =>
      rw [hRun] at hTooDeep
      exact absurd hTooDeep (run_closeParens_ne_tooDeep state k)

end Expr

end Calculator
