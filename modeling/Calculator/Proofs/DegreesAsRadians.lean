import Calculator.Expr.Degrees
import Calculator.Expr.Eval

/-! Degrees as a rewriting: an expression in degrees comes to what its rewriting comes to in radians,
errors included. An expression without angles is its own rewriting, so the unit of angles makes no
difference to it. -/

namespace Calculator

/-- Whether the function takes or gives an angle. -/
def Func.dealsInAngles : Func → Bool
  | sin | cos | tan | asin | acos | atan => true
  | _ => false

namespace Expr

/-- Whether no function in the expression takes or gives an angle. -/
def omitsAngles : Expr → Bool
  | number _ | constant _ => true
  | neg arg => arg.omitsAngles
  | binary _ lhs rhs => lhs.omitsAngles && rhs.omitsAngles
  | call f arg => !f.dealsInAngles && arg.omitsAngles

theorem eval_neg (angle : Angle) (e : Expr) :
    (neg e).eval angle = (e.eval angle).map Neg.neg := by
  show (do return -(← e.eval angle)) = _
  cases e.eval angle <;> rfl

theorem eval_call (angle : Angle) (f : Func) (arg : Expr) :
    (call f arg).eval angle = (arg.eval angle).map (f.apply angle) := by
  show (do return f.apply angle (← arg.eval angle)) = _
  cases arg.eval angle with
  | error e => rfl
  | ok x => rfl

theorem eval_mul_number (angle : Angle) (e : Expr) (y : Binary64) :
    (binary .mul e (number y)).eval angle = (e.eval angle).map (· * y) := by
  show (do return (← e.eval angle) * y) = _
  cases e.eval angle with
  | error e => rfl
  | ok x => rfl

/-- In a call the factor stands where the function converts the angle: before it is applied, after it,
or nowhere. -/
theorem eval_degreesAsRadians_call (f : Func) (arg : Expr) :
    (call f arg).degreesAsRadians.eval .radians =
      (arg.degreesAsRadians.eval .radians).map (f.apply .degrees) := by
  -- the values are compared by name: `rfl` would compute the factor
  cases f with
  | sin | cos | tan =>
    rw [degreesAsRadians, eval_call, eval_mul_number]
    cases arg.degreesAsRadians.eval .radians with
    | error e => simp only [Except.map]
    | ok x => simp only [Except.map, Func.apply, Angle.toRadians]
  | asin | acos | atan =>
    rw [degreesAsRadians, eval_mul_number, eval_call]
    cases arg.degreesAsRadians.eval .radians with
    | error e => simp only [Except.map]
    | ok x => simp only [Except.map, Func.apply, Angle.ofRadians]
  | _ => exact eval_call .radians _ arg.degreesAsRadians

theorem eval_degrees_eq_eval_radians (e : Expr) :
    e.eval .degrees = e.degreesAsRadians.eval .radians := by
  induction e with
  | number x => rfl
  | constant c => rfl
  | neg arg ih => rw [degreesAsRadians, eval_neg, eval_neg, ih]
  | binary op lhs rhs ihLhs ihRhs => rw [degreesAsRadians, eval, eval, ihLhs, ihRhs]
  | call f arg ih => rw [eval_degreesAsRadians_call, eval_call, ih]

theorem degreesAsRadians_of_omitsAngles {e : Expr} (h : e.omitsAngles = true) :
    e.degreesAsRadians = e := by
  induction e with
  | number x => rfl
  | constant c => rfl
  | neg arg ih => exact congrArg neg (ih h)
  | binary op lhs rhs ihLhs ihRhs =>
    rw [omitsAngles, Bool.and_eq_true] at h
    rw [degreesAsRadians, ihLhs h.1, ihRhs h.2]
  | call f arg ih =>
    rw [omitsAngles, Bool.and_eq_true] at h
    cases f with
    | sin | cos | tan | asin | acos | atan => cases h.1
    | _ => exact congrArg (call _) (ih h.2)

/-- The value of an expression in degrees, or its error, is that of its rewriting in radians. An
expression without angles has the same one in both units. -/
theorem eval_degrees (e : Expr) :
    e.eval .degrees = e.degreesAsRadians.eval .radians ∧
      (e.omitsAngles = true → e.eval .degrees = e.eval .radians) := by
  refine ⟨eval_degrees_eq_eval_radians e, fun h => ?_⟩
  rw [eval_degrees_eq_eval_radians, degreesAsRadians_of_omitsAngles h]

/-- The square root of a hyperbolic cosine, which is no function of an angle. -/
theorem eval_degrees_of_sqrt_cosh :
    let e := call .sqrt (call .cosh (binary .sub (constant .pi) (number (.ofNat 3))))
    e.omitsAngles = true ∧ e.eval .degrees = e.eval .radians := by
  intro e
  exact ⟨rfl, (eval_degrees e).2 rfl⟩

end Expr

end Calculator
