import Calculator.Proofs.DegreesAsRadians
import Calculator.Proofs.RoundedValue

/-! Which error the evaluation of an expression gives. An expression without a value has a power of
a negative number to a finite exponent that is no integer, and the error is that of the first such
power in the order of evaluation. All other expressions have a value, whatever infinities and values
that are not numbers come up on the way. -/

namespace Calculator

/-! ### Signs and fractions -/

theorem Magnitude.value_eq_natCast_iff {m : Magnitude} {k : ℕ} :
    m.value = k ↔ m.units = unitsPerOne * k := by
  rw [value, div_eq_iff unitsPerOne_pos.ne', mul_comm]
  exact_mod_cast Iff.rfl

namespace Binary64

/-- The number is the negative infinity or a finite number below zero. -/
def IsBelowZero (x : Binary64) : Prop := x = infinite true ∨ ∃ m, x = finite true m ∧ 0 < m.value

/-- The number is finite and no integer. -/
def IsFractional (x : Binary64) : Prop :=
  ∃ negative m, x = finite negative m ∧ ∀ k : ℕ, m.value ≠ k

variable {x : Binary64}

theorem isNegative_iff : x.isNegative = true ↔ x.IsBelowZero := by
  cases x with
  | nan signaling => simp [isNegative, lt, place?, IsBelowZero]
  | infinite negative => cases negative <;> simp [IsBelowZero] <;> decide
  | finite negative m =>
    cases negative with
    | false => simp [isNegative_finite_false, IsBelowZero]
    | true =>
      by_cases hRank : m.rank = 0
      · simp [isNegative, lt, place?, zero, Magnitude.zero, IsBelowZero, Magnitude.value_pos_iff,
          hRank]
      · simp [isNegative_finite_true hRank, IsBelowZero, Magnitude.value_pos_iff, hRank]

theorem hasFraction_iff : x.hasFraction = true ↔ x.IsFractional := by
  cases x with
  | nan signaling => simp [hasFraction, IsFractional]
  | infinite negative => simp [hasFraction, IsFractional]
  | finite negative m =>
    have hMultiple : m.units % unitsPerOne = 0 ↔ ∃ k : ℕ, m.value = k := by
      simp only [Magnitude.value_eq_natCast_iff]
      exact (Nat.dvd_iff_mod_eq_zero ..).symm
    simp [hasFraction, IsFractional, hMultiple]

end Binary64

/-! ### The first power without a value -/

namespace Expr

variable {angle : Angle} {e lhs rhs : Expr} {error : DomainError}

/-- The operands of the powers in the expression, in the order of evaluation: a power comes after
those in its own operands, and what stands in a left operand comes before what stands in the right
one. -/
def powers : Expr → List (Expr × Expr)
  | number _ | constant _ => []
  | neg arg => arg.powers
  | binary op lhs rhs => lhs.powers ++ rhs.powers ++ if op = .pow then [(lhs, rhs)] else []
  | call _ arg => arg.powers

/-- The operands have the values `x` and `y`, a negative number and a finite one that is no integer,
so that their power has none. -/
structure LacksPower (angle : Angle) (operands : Expr × Expr) (x y : Binary64) : Prop where
  base : operands.1.eval angle = .ok x
  exponent : operands.2.eval angle = .ok y
  negative : x.IsBelowZero
  fractional : y.IsFractional

/-- The error of a power with these operands, if both have values. -/
def powerError? (angle : Angle) (operands : Expr × Expr) : Option DomainError :=
  match operands.1.eval angle, operands.2.eval angle with
  | .ok x, .ok y => if x.isNegative && y.hasFraction then some ⟨.pow, x, y⟩ else none
  | _, _ => none

theorem powerError?_eq_some_iff {operands : Expr × Expr} :
    powerError? angle operands = some error ↔
      ∃ x y, LacksPower angle operands x y ∧ error = ⟨.pow, x, y⟩ := by
  constructor
  · intro h
    unfold powerError? at h
    split at h
    · rename_i x y hBase hExponent
      split at h
      · rename_i hFails
        obtain ⟨hNegative, hFraction⟩ := Bool.and_eq_true_iff.mp hFails
        exact ⟨x, y, ⟨hBase, hExponent, Binary64.isNegative_iff.mp hNegative,
          Binary64.hasFraction_iff.mp hFraction⟩, (Option.some.inj h).symm⟩
      · cases h
    · cases h
  · rintro ⟨x, y, ⟨hBase, hExponent, hNegative, hFraction⟩, rfl⟩
    simp [powerError?, hBase, hExponent, Binary64.isNegative_iff.mpr hNegative,
      Binary64.hasFraction_iff.mpr hFraction]

theorem powerError?_eq_none_iff {operands : Expr × Expr} :
    powerError? angle operands = none ↔ ∀ x y, ¬LacksPower angle operands x y := by
  rw [Option.eq_none_iff_forall_ne_some]
  constructor
  · intro h x y hLacks
    exact h _ (powerError?_eq_some_iff.mpr ⟨x, y, hLacks, rfl⟩)
  · intro h error hError
    obtain ⟨x, y, hLacks, -⟩ := powerError?_eq_some_iff.mp hError
    exact h x y hLacks

theorem isSome_powerError?_iff {operands : Expr × Expr} :
    (powerError? angle operands).isSome ↔ ∃ x y, LacksPower angle operands x y := by
  rw [Option.isSome_iff_ne_none, ne_eq, powerError?_eq_none_iff]
  simp only [not_forall, not_not]

theorem map_eq_error_iff {α β ε : Type} {f : α → β} {result : Except ε α} {error : ε} :
    result.map f = .error error ↔ result = .error error := by
  cases result <;> simp [Except.map]

/-- Apart from powers, operators have a value for all values of their operands. -/
theorem apply_eq_error_iff {op : Operator} {x y : Binary64} (hLeft : lhs.eval angle = .ok x)
    (hRight : rhs.eval angle = .ok y) :
    op.apply x y = .error error ↔
      (if op = .pow then [(lhs, rhs)] else []).findSome? (powerError? angle) = some error := by
  cases op with
  | pow =>
    rw [if_pos rfl, List.findSome?_singleton, powerError?, hLeft, hRight, Operator.apply]
    by_cases hFails : x.isNegative && y.hasFraction
    · simp [hFails]
    · simp [hFails]
  | _ => simp [Operator.apply]

theorem eq_none_of_eq_ok {α ε : Type} {result : Except ε α} {found : Option ε} {x : α}
    (h : ∀ error, result = .error error ↔ found = some error) (hOk : result = .ok x) :
    found = none := by
  rw [Option.eq_none_iff_forall_ne_some]
  intro error hFound
  rw [(h error).mpr hFound] at hOk
  cases hOk

/-- Evaluation gives the first error in the list of powers, if there is one. -/
theorem eval_eq_error_iff_findSome? (error : DomainError) :
    e.eval angle = .error error ↔ e.powers.findSome? (powerError? angle) = some error := by
  induction e generalizing error with
  | number x => simp [eval, powers]
  | constant c => simp [eval, powers]
  | neg arg ih => rw [eval_neg, map_eq_error_iff, ih, powers]
  | call f arg ih => rw [eval_call, map_eq_error_iff, ih, powers]
  | binary op lhs rhs ihLeft ihRight =>
    rw [powers, List.append_assoc, List.findSome?_append, List.findSome?_append, eval]
    cases hLeft : lhs.eval angle with
    | error fault =>
      -- an error on the left hides what is on the right
      rw [(ihLeft fault).mp hLeft, Option.some_or]
      simp [bind, Except.bind]
    | ok x =>
      rw [eq_none_of_eq_ok ihLeft hLeft, Option.none_or]
      cases hRight : rhs.eval angle with
      | error fault =>
        rw [(ihRight fault).mp hRight, Option.some_or]
        simp [bind, Except.bind]
      | ok y =>
        rw [eq_none_of_eq_ok ihRight hRight, Option.none_or]
        exact apply_eq_error_iff hLeft hRight

/-- Evaluation gives an error exactly if some power in the expression has operands with values, a
negative one and a finite one that is no integer. The error then names the values of the first such
power in the order of evaluation. In every other case there is a value. -/
theorem eval_eq_error_iff (angle : Angle) (e : Expr) :
    (∀ error, e.eval angle = .error error ↔
      ∃ before operands after x y, e.powers = before ++ operands :: after ∧
        LacksPower angle operands x y ∧ (∀ p ∈ before, ∀ x y, ¬LacksPower angle p x y) ∧
        error = ⟨.pow, x, y⟩ ∧ error.message = "expression '".toList ++ x.raw ++ [' ', '^', ' '] ++
          y.raw ++ "' has no real value".toList) ∧
    ((∃ error, e.eval angle = .error error) ↔
      ∃ operands ∈ e.powers, ∃ x y, LacksPower angle operands x y) ∧
    ((∃ x, e.eval angle = .ok x) ↔
      ∀ operands ∈ e.powers, ∀ x y, ¬LacksPower angle operands x y) := by
  have hValue : (∃ x, e.eval angle = .ok x) ↔ e.powers.findSome? (powerError? angle) = none := by
    constructor
    · rintro ⟨x, hValue⟩
      exact eq_none_of_eq_ok eval_eq_error_iff_findSome? hValue
    · intro hNone
      cases hEval : e.eval angle with
      | ok x => exact ⟨x, rfl⟩
      | error error =>
        rw [eval_eq_error_iff_findSome?, hNone] at hEval
        cases hEval
  refine ⟨fun error => ?_, ?_, ?_⟩
  · rw [eval_eq_error_iff_findSome?, List.findSome?_eq_some_iff]
    constructor
    · rintro ⟨before, operands, after, hPowers, hError, hBefore⟩
      obtain ⟨x, y, hLacks, rfl⟩ := powerError?_eq_some_iff.mp hError
      exact ⟨before, operands, after, x, y, hPowers, hLacks,
        fun p hp => powerError?_eq_none_iff.mp (hBefore p hp), rfl, rfl⟩
    · rintro ⟨before, operands, after, x, y, hPowers, hLacks, hBefore, hError, -⟩
      exact ⟨before, operands, after, hPowers, powerError?_eq_some_iff.mpr ⟨x, y, hLacks, hError⟩,
        fun p hp => powerError?_eq_none_iff.mpr (hBefore p hp)⟩
  · simp only [eval_eq_error_iff_findSome?, ← Option.isSome_iff_exists, List.findSome?_isSome_iff,
      isSome_powerError?_iff]
  · rw [hValue, List.findSome?_eq_none_iff]
    simp only [powerError?_eq_none_iff]

/-- In `(0-8)^(1/2) + (1/0 - (0-1)^(1/4))` both powers have no value, and the left one is named. -/
example : (binary .add
    (binary .pow (binary .sub (number .zero) (number (.ofNat 8)))
      (binary .div (number (.ofNat 1)) (number (.ofNat 2))))
    (binary .sub (binary .div (number (.ofNat 1)) (number .zero))
      (binary .pow (binary .sub (number .zero) (number (.ofNat 1)))
        (binary .div (number (.ofNat 1)) (number (.ofNat 4)))))).eval .radians =
    .error ⟨.pow, -.ofNat 8, .ofNat 1 / .ofNat 2⟩ := by
  decide +kernel

end Expr

end Calculator
