import Calculator.Numeric.Binary64

/-! The elementary functions that are not exactly rounded. They go through the machine's own
floating-point numbers, whose functions are those of the platform's mathematical library. -/

namespace Calculator.Binary64

def toFloat (x : Binary64) : Float := Float.ofBits (UInt64.ofNat x.toBits)

/-- The number with the bits of a machine's number. -/
def ofFloat (f : Float) : Binary64 := ofBits f.toBits.toNat

def liftFloat (f : Float → Float) (x : Binary64) : Binary64 := ofFloat (f x.toFloat)

def sin (x : Binary64) : Binary64 := x.liftFloat Float.sin
def cos (x : Binary64) : Binary64 := x.liftFloat Float.cos
def tan (x : Binary64) : Binary64 := x.liftFloat Float.tan
def asin (x : Binary64) : Binary64 := x.liftFloat Float.asin
def acos (x : Binary64) : Binary64 := x.liftFloat Float.acos
def atan (x : Binary64) : Binary64 := x.liftFloat Float.atan
def sinh (x : Binary64) : Binary64 := x.liftFloat Float.sinh
def cosh (x : Binary64) : Binary64 := x.liftFloat Float.cosh
def tanh (x : Binary64) : Binary64 := x.liftFloat Float.tanh
def log10 (x : Binary64) : Binary64 := x.liftFloat Float.log10
def ln (x : Binary64) : Binary64 := x.liftFloat Float.log
def exp (x : Binary64) : Binary64 := x.liftFloat Float.exp
def sqrt (x : Binary64) : Binary64 := x.liftFloat Float.sqrt

/-- `x` to the power `y`. Anything to the power zero is one, and so is one to any power, what is
not a number included unless it is signaling. -/
def pow : Binary64 → Binary64 → Binary64
  | nan true, _ | _, nan true => notANumber
  | x, y => if y.isZero || x = ofNat 1 then ofNat 1 else ofFloat (Float.pow x.toFloat y.toFloat)

end Calculator.Binary64
