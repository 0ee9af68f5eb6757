import Calculator.Expr.Basic
import Calculator.Token.Basic

/-! Parsing tokens into an expression, one token at a time. The parser keeps a stack of the
constructs that still wait for their last operand. When an operand is complete, those that bind at
least as tightly as the operator that follows take it in. A text that ends inside groups closes
them, so that what has been typed so far has a value as soon as its last operand stands. -/

namespace Calculator

/-- What makes tokens no expression, whatever would follow them. -/
inductive SyntaxFault where
  | tooDeep
  | bareFunction (f : Func)
  | unmatchedClose
  | misplacedOperator (op : Operator)
  | unclosed (found : Token)
  | trailing (found : Token)
deriving DecidableEq

def SyntaxFault.message : SyntaxFault → Text
  | tooDeep => "expression nested too deeply".toList
  | bareFunction f => "function '".toList ++ f.name ++ "' must be followed by '('".toList
  | unmatchedClose => "unmatched ')'".toList
  | misplacedOperator op => "expected a number, got '".toList ++ [op.symbol, '\'']
  | unclosed found => "expected ')', got ".toList ++ found.quoted
  | trailing found => "unexpected ".toList ++ found.quoted

/-- Why tokens have no expression: an operand is still missing, or there is a fault. -/
inductive ParseError where
  | incomplete
  | malformed (fault : SyntaxFault)
deriving DecidableEq

def ParseError.message : ParseError → Text
  | incomplete => "incomplete expression".toList
  | malformed fault => "malformed expression: ".toList ++ fault.message

/-- A construct that waits for its last operand. -/
inductive Pending where
  | plus
  | minus
  | binary (op : Operator) (lhs : Expr)
  | group
  | call (f : Func)
deriving DecidableEq

namespace Pending

/-- The expression of the construct once its operand is known. -/
def fill : Pending → Expr → Expr
  | plus, e => e
  | minus, e => .neg e
  | binary op lhs, e => .binary op lhs e
  | group, e => e
  | call f, e => .call f e

/-- How tightly the construct binds the operand it waits for; a group never gives it up. -/
def strength : Pending → Nat
  | plus | minus => 3
  | binary .pow _ => 3
  | binary op _ => op.strength
  | group | call _ => 0

/-- Whether the construct nests its operand one level deeper. -/
def nests : Pending → Bool
  | binary .pow _ => true
  | binary _ _ => false
  | _ => true

end Pending

namespace Parser

/-- How many groups, signs and exponents may enclose an operand. -/
def depthLimit : Nat := 256

/-- How many groups, signs and exponents enclose the next operand. -/
def depth (stack : List Pending) : Nat := stack.countP Pending.nests

/-- Where the parser stands, with the innermost waiting construct first: before an operand, right
after an opener, or after a complete operand. -/
inductive State where
  | operand (stack : List Pending)
  | opened (stack : List Pending)
  | complete (stack : List Pending) (e : Expr)

/-- Lets the constructs that bind at least so tightly take in the operand. -/
def unwind (strength : Nat) : List Pending → Expr → List Pending × Expr
  | [], e => ([], e)
  | p :: stack, e =>
    if strength ≤ p.strength then unwind strength stack (p.fill e) else (p :: stack, e)

/-- The expression in which all constructs have taken in their operand. -/
def close (stack : List Pending) (e : Expr) : Expr := stack.foldl (fun e p => p.fill e) e

/-- Waits for an operand under the stack, unless it would lie too deep. -/
def descend (stack : List Pending) : Except ParseError State :=
  if depthLimit < depth stack then .error (.malformed .tooDeep) else .ok (.operand stack)

/-- Reads a token where an operand is due. -/
def stepOperand (stack : List Pending) : Token → Except ParseError State
  | .number x => .ok (.complete stack (.number x))
  | .constant c => .ok (.complete stack (.constant c))
  | .openParen => .ok (.opened (.group :: stack))
  | .function f => .ok (.opened (.call f :: stack))
  | .operator .add => descend (.plus :: stack)
  | .operator .sub => descend (.minus :: stack)
  | .operator op => .error (.malformed (.misplacedOperator op))
  | .bareFunction f => .error (.malformed (.bareFunction f))
  | .closeParen => .error (.malformed .unmatchedClose)

def stepComplete (stack : List Pending) (e : Expr) : Token → Except ParseError State
  | .operator op =>
    let (stack, lhs) := unwind op.strength stack e
    descend (.binary op lhs :: stack)
  | .closeParen =>
    match unwind 1 stack e with
    | ([], _) => .error (.malformed .unmatchedClose)
    | (p :: stack, e) => .ok (.complete stack (p.fill e))
  | t =>
    match unwind 1 stack e with
    | ([], _) => .error (.malformed (.trailing t))
    | _ => .error (.malformed (.unclosed t))

/-- Reads one token. An empty group lacks an operand. -/
def step : State → Token → Except ParseError State
  | .operand stack, t => stepOperand stack t
  | .opened _, .closeParen => .error .incomplete
  | .opened stack, t => do
    let _ ← descend stack
    stepOperand stack t
  | .complete stack e, t => stepComplete stack e t

def finish : State → Except ParseError Expr
  | .operand _ => .error .incomplete
  | .opened stack => do
    let _ ← descend stack
    .error .incomplete
  | .complete stack e => .ok (close stack e)

def run (state : State) (ts : List Token) : Except ParseError State := ts.foldlM step state

end Parser

def Expr.parse (ts : List Token) : Except ParseError Expr :=
  Parser.run (.operand []) ts >>= Parser.finish

end Calculator
