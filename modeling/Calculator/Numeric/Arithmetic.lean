import Calculator.Numeric.Binary64

/-! Exactly rounded arithmetic: the exact result in units of `2 ^ -1074`, rounded once to nearest,
with the usual rules for infinities and the sign of zero. What is not a number gives a quiet one. -/

namespace Calculator.Binary64

def neg : Binary64 → Binary64
  | nan signaling => nan signaling
  | infinite negative => infinite (!negative)
  | finite negative m => finite (!negative) m

/-- The value of a finite number in units, with its sign. -/
def signedUnits (negative : Bool) (m : Magnitude) : Int :=
  if negative then -m.units else m.units

/-- The sum. A sum of zero is negative only when both terms are. -/
def add : Binary64 → Binary64 → Binary64
  | nan _, _ | _, nan _ => notANumber
  | infinite a, infinite b => if a = b then infinite a else notANumber
  | infinite a, finite _ _ => infinite a
  | finite _ _, infinite b => infinite b
  | finite a m, finite b n =>
    let sum := signedUnits a m + signedUnits b n
    if sum = 0 then finite (a && b) .zero else rounded (sum < 0) sum.natAbs 1

/-- The difference, which is the sum with the sign of `y` flipped. -/
def sub (x y : Binary64) : Binary64 := x.add y.neg

def mul : Binary64 → Binary64 → Binary64
  | nan _, _ | _, nan _ => notANumber
  | infinite a, infinite b => infinite (a != b)
  | infinite a, finite b n => if n.rank = 0 then notANumber else infinite (a != b)
  | finite a m, infinite b => if m.rank = 0 then notANumber else infinite (a != b)
  | finite a m, finite b n => rounded (a != b) (m.units * n.units) unitsPerOne

/-- The quotient. A nonzero number over zero is infinite. -/
def div : Binary64 → Binary64 → Binary64
  | nan _, _ | _, nan _ => notANumber
  | infinite _, infinite _ => notANumber
  | infinite a, finite b _ => infinite (a != b)
  | finite a _, infinite b => finite (a != b) .zero
  | finite a m, finite b n =>
    if n.rank = 0 then if m.rank = 0 then notANumber else infinite (a != b)
    else rounded (a != b) (m.units * unitsPerOne) n.units

/-- The remainder of division truncated toward zero, with the sign of `x`. It is always exact. -/
def mod : Binary64 → Binary64 → Binary64
  | nan _, _ | _, nan _ => notANumber
  | infinite _, _ => notANumber
  | finite a m, infinite _ => finite a m
  | finite a m, finite _ n =>
    if n.rank = 0 then notANumber else rounded a (m.units % n.units) 1

instance : Neg Binary64 := ⟨neg⟩
instance : Add Binary64 := ⟨add⟩
instance : Sub Binary64 := ⟨sub⟩
instance : Mul Binary64 := ⟨mul⟩
instance : Div Binary64 := ⟨div⟩
instance : Mod Binary64 := ⟨mod⟩

/-- The product of `i, i + 1, …, bound` onto `product`, rounded at each step, given up once it is
infinite. -/
def mulRange (bound i : Nat) (product : Binary64) : Binary64 :=
  if i ≤ bound ∧ product.isFinite then mulRange bound (i + 1) (product * ofNat i) else product
termination_by bound + 1 - i

/-- The factorial of the integer part; negative numbers have none. -/
def factorial : Binary64 → Binary64
  | nan _ => notANumber
  | infinite negative => if negative then notANumber else infinite false
  | finite negative m =>
    if negative && m.rank != 0 then notANumber
    else mulRange (m.units / unitsPerOne) 2 (ofNat 1)

end Calculator.Binary64
