import Calculator.Angle
import Calculator.Expr.Basic

/-! Angles in degrees as a rewriting: the expression whose value in radians is that of another in
degrees. -/

namespace Calculator.Expr

/-- The expression with a factor from degrees to radians in every argument of a circular function,
and a factor from radians to degrees on every inverse one. -/
def degreesAsRadians : Expr → Expr
  | number x => number x
  | constant c => constant c
  | neg arg => neg arg.degreesAsRadians
  | binary op lhs rhs => binary op lhs.degreesAsRadians rhs.degreesAsRadians
  | call f arg =>
    match f with
    | .sin | .cos | .tan =>
      call f (binary .mul arg.degreesAsRadians (number Angle.radiansPerDegree))
    | .asin | .acos | .atan =>
      binary .mul (call f arg.degreesAsRadians) (number Angle.degreesPerRadian)
    | f => call f arg.degreesAsRadians

end Calculator.Expr
