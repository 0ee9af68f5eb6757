import Calculator.Expr.Basic
import Calculator.Token.Basic

/-! The grammar of expressions in tokens, with every group closed. A sum is a chain of products, a
product a chain of signed factors, both grouped to the left; a sign stands before a whole power, and
a power takes a signed exponent on its right. -/

namespace Calculator

/-- The kinds of phrases, from loosest to tightest. -/
inductive Phrase where
  | sum | product | signed | power | atom
deriving DecidableEq

/-- `Derives limit kind depth ts e`: under `depth` groups, signs and exponents, the tokens `ts` are
a phrase of a kind that stands for `e`, in which no operand lies under more than `limit` of them. -/
inductive Derives (limit : Nat) : Phrase → Nat → List Token → Expr → Prop
  | number {depth : Nat} (x : Binary64) : depth ≤ limit →
      Derives limit .atom depth [.number x] (.number x)
  | constant {depth : Nat} (c : Constant) : depth ≤ limit →
      Derives limit .atom depth [.constant c] (.constant c)
  | group {depth : Nat} {ts : List Token} {e : Expr} :
      Derives limit .sum (depth + 1) ts e →
      Derives limit .atom depth (.openParen :: ts ++ [.closeParen]) e
  | call {depth : Nat} {ts : List Token} {e : Expr} (f : Func) :
      Derives limit .sum (depth + 1) ts e →
      Derives limit .atom depth (.function f :: ts ++ [.closeParen]) (.call f e)
  | atom {depth : Nat} {ts : List Token} {e : Expr} :
      Derives limit .atom depth ts e → Derives limit .power depth ts e
  | exponent {depth : Nat} {ts us : List Token} {lhs rhs : Expr} :
      Derives limit .atom depth ts lhs → Derives limit .signed (depth + 1) us rhs →
      Derives limit .power depth (ts ++ .operator .pow :: us) (.binary .pow lhs rhs)
  | power {depth : Nat} {ts : List Token} {e : Expr} :
      Derives limit .power depth ts e → Derives limit .signed depth ts e
  | minus {depth : Nat} {ts : List Token} {e : Expr} :
      Derives limit .signed (depth + 1) ts e →
      Derives limit .signed depth (.operator .sub :: ts) (.neg e)
  | plus {depth : Nat} {ts : List Token} {e : Expr} :
      Derives limit .signed (depth + 1) ts e →
      Derives limit .signed depth (.operator .add :: ts) e
  | signed {depth : Nat} {ts : List Token} {e : Expr} :
      Derives limit .signed depth ts e → Derives limit .product depth ts e
  | factor {depth : Nat} {ts us : List Token} {lhs rhs : Expr} {op : Operator} :
      op.strength = 2 → Derives limit .product depth ts lhs → Derives limit .signed depth us rhs →
      Derives limit .product depth (ts ++ .operator op :: us) (.binary op lhs rhs)
  | product {depth : Nat} {ts : List Token} {e : Expr} :
      Derives limit .product depth ts e → Derives limit .sum depth ts e
  | term {depth : Nat} {ts us : List Token} {lhs rhs : Expr} {op : Operator} :
      op.strength = 1 → Derives limit .sum depth ts lhs → Derives limit .product depth us rhs →
      Derives limit .sum depth (ts ++ .operator op :: us) (.binary op lhs rhs)

end Calculator
