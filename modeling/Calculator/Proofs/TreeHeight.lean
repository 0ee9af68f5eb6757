import Calculator.Expr.Measures
import Calculator.Proofs.Grammar

/-! How high the tree of an accepted expression is. The limit on groups, signs and exponents bounds
every path from the root to a leaf, as long as the steps to the left operands of sums and products
are not counted. Chains of these, which the grammar groups to the left, nest nothing: they grow with
the number of tokens, and no height is the greatest one. -/

namespace Calculator

namespace Expr

/-- The most steps from the root to a leaf, those to the left operand of a sum or a product not
counted. -/
def heightOffChains : Expr → Nat
  | number _ | constant _ => 0
  | neg arg => arg.heightOffChains + 1
  | binary .pow lhs rhs => max lhs.heightOffChains rhs.heightOffChains + 1
  | binary _ lhs rhs => max lhs.heightOffChains (rhs.heightOffChains + 1)
  | call _ arg => arg.heightOffChains + 1

theorem heightOffChains_binary {op : Operator} (h : op ≠ .pow) (lhs rhs : Expr) :
    (binary op lhs rhs).heightOffChains =
      max lhs.heightOffChains (rhs.heightOffChains + 1) := by
  cases op with
  | pow => exact absurd rfl h
  | _ => rfl

end Expr

/-- The best bound on the steps off chains in a phrase, where an operand may lie under so many more
groups, signs and exponents. Each of them makes room for four steps: to the right operand of a sum,
to the right operand of a product, to the base of a power and into a call. -/
def Phrase.heightBound (room : Nat) : Phrase → Nat
  | atom => 4 * room - 1
  | power | signed => 4 * room
  | product => 4 * room + 1
  | sum => 4 * room + 2

namespace Derives

variable {limit depth : Nat} {kind : Phrase} {ts : List Token} {e : Expr}

theorem heightOffChains_le (h : Derives limit kind depth ts e) :
    e.heightOffChains ≤ kind.heightBound (limit - depth) := by
  induction h with
  | number => exact Nat.zero_le _
  | constant => exact Nat.zero_le _
  | group hInner ih =>
    have := hInner.depth_le
    simp only [Phrase.heightBound] at ih ⊢
    omega
  | call f hInner ih =>
    have := hInner.depth_le
    simp only [Phrase.heightBound, Expr.heightOffChains] at ih ⊢
    omega
  | exponent _ hExponent ihBase ihExponent =>
    have := hExponent.depth_le
    simp only [Phrase.heightBound, Expr.heightOffChains] at ihBase ihExponent ⊢
    omega
  | minus hArg ih =>
    have := hArg.depth_le
    simp only [Phrase.heightBound, Expr.heightOffChains] at ih ⊢
    omega
  | plus hArg ih =>
    have := hArg.depth_le
    simp only [Phrase.heightBound] at ih ⊢
    omega
  | atom _ ih | power _ ih | signed _ ih | product _ ih =>
    simp only [Phrase.heightBound] at ih ⊢
    omega
  | factor hOp _ _ ihLeft ihRight =>
    rw [Expr.heightOffChains_binary (Operator.phrases_of_factor hOp).2.2]
    simp only [Phrase.heightBound] at ihLeft ihRight ⊢
    omega
  | term hOp _ _ ihLeft ihRight =>
    rw [Expr.heightOffChains_binary (Operator.phrases_of_term hOp).2.2]
    simp only [Phrase.heightBound] at ihLeft ihRight ⊢
    omega

/-- The bound on sums is reached wherever an operand may stand. -/
theorem exists_heightOffChains_eq {limit room : Nat} (h : room ≤ limit) :
    ∃ ts e, Derives limit .sum (limit - room) ts e ∧
      e.heightOffChains = Phrase.sum.heightBound room := by
  have hMul : Operator.mul.strength = 2 := rfl
  have hAdd : Operator.add.strength = 1 := rfl
  induction room with
  | zero =>
    have hZero : Derives limit .signed limit [.number .zero] (.number .zero) :=
      .power (.atom (.number .zero (Nat.le_refl limit)))
    have hProduct := Derives.factor hMul hZero.signed hZero
    exact ⟨_, _, .term hAdd hZero.signed.product hProduct, rfl⟩
  | succ room ih =>
    obtain ⟨ts, e, hInner, hHeight⟩ := ih (by omega)
    have hDeeper : limit - room = limit - (room + 1) + 1 := by omega
    rw [hDeeper] at hInner
    have hZero {depth : Nat} (hDepth : depth ≤ limit) :
        Derives limit .signed depth [.number .zero] (.number .zero) :=
      .power (.atom (.number .zero hDepth))
    have hPower := Derives.exponent (.call .sin hInner) (hZero (by omega))
    have hProduct := Derives.factor hMul (hZero (by omega)).signed hPower.power
    refine ⟨_, _, .term hAdd (hZero (by omega)).signed.product hProduct, ?_⟩
    simp only [Expr.heightOffChains, hHeight, Phrase.heightBound]
    omega

/-- Every step of a path takes a token that closes nothing, and so does the leaf. -/
theorem height_add_count_lt (h : Derives limit kind depth ts e) :
    e.height + ts.count .closeParen < ts.length := by
  induction h with
  | number | constant => exact Nat.lt_succ_self 0
  | group _ ih | call f _ ih =>
    simp only [Expr.height, List.cons_append, List.count_append, ne_eq, reduceCtorEq,
      not_false_eq_true, List.count_cons_of_ne, List.count_cons_self, List.count_nil,
      List.length_cons, List.length_append, List.length_nil]
    omega
  | exponent _ _ ihLeft ihRight | factor _ _ _ ihLeft ihRight | term _ _ _ ihLeft ihRight =>
    simp only [Expr.height, List.count_append, ne_eq, reduceCtorEq, not_false_eq_true,
      List.count_cons_of_ne, List.length_append, List.length_cons]
    omega
  | minus _ ih | plus _ ih =>
    simp only [Expr.height, ne_eq, reduceCtorEq, not_false_eq_true, List.count_cons_of_ne,
      List.length_cons]
    omega
  | atom _ ih | power _ ih | signed _ ih | product _ ih => exact ih

end Derives

namespace Expr

open Calculator.Parser

variable {ts : List Token} {e : Expr}

/-- Off the chains of left operands no path of an accepted tree has more than 1026 steps, however
many tokens there are. With the chains it has fewer steps than there are tokens. -/
theorem heightOffChains_le_of_parse (h : parse ts = .ok e) :
    e.heightOffChains ≤ 1026 ∧ e.height < ts.length := by
  obtain ⟨k, hDerives⟩ := exists_derives_of_parse h
  refine ⟨hDerives.heightOffChains_le, ?_⟩
  have hCount := hDerives.height_add_count_lt
  rw [List.count_append, List.count_replicate_self, List.length_append,
    List.length_replicate] at hCount
  omega

/-- The tokens of `1-2-sin(3^-4`: a chain, and a call that is left open. -/
theorem heightOffChains_le_of_parse_of_difference :
    let ts : List Token := [.number (.ofNat 1), .operator .sub, .number (.ofNat 2), .operator .sub,
      .function .sin, .number (.ofNat 3), .operator .pow, .operator .sub, .number (.ofNat 4)]
    let e := binary .sub (binary .sub (number (.ofNat 1)) (number (.ofNat 2)))
      (call .sin (binary .pow (number (.ofNat 3)) (neg (number (.ofNat 4)))))
    parse ts = .ok e ∧ e.heightOffChains ≤ 1026 ∧ e.height < ts.length := by
  intro ts e
  have hParse : parse ts = .ok e := rfl
  exact ⟨hParse, heightOffChains_le_of_parse hParse⟩

/-- The bound is the best one. -/
theorem exists_parse_heightOffChains : ∃ ts e, parse ts = .ok e ∧ e.heightOffChains = 1026 := by
  obtain ⟨ts, e, hDerives, hHeight⟩ := Derives.exists_heightOffChains_eq (Nat.le_refl depthLimit)
  rw [Nat.sub_self, ← List.append_nil ts] at hDerives
  exact ⟨ts, e, parse_of_derives (k := 0) hDerives, hHeight⟩

/-! ### Chains -/

/-- A sum of zeros, grouped to the left, with so many additions. -/
def zeroChain : Nat → Expr
  | 0 => number .zero
  | n + 1 => binary .add (zeroChain n) (number .zero)

theorem height_zeroChain (n : Nat) : (zeroChain n).height = n := by
  induction n with
  | zero => rfl
  | succ n ih =>
    rw [zeroChain, height, ih, height]
    omega

/-- A chain of additions lies at one depth. -/
theorem exists_derives_zeroChain (limit n : Nat) :
    ∃ ts, Derives limit .sum 0 ts (zeroChain n) := by
  have hZero : Derives limit .product 0 [.number .zero] (number .zero) :=
    .signed (.power (.atom (.number .zero (Nat.zero_le limit))))
  induction n with
  | zero => exact ⟨_, .product hZero⟩
  | succ n ih =>
    obtain ⟨ts, hChain⟩ := ih
    exact ⟨_, .term rfl hChain hZero⟩

theorem exists_parse_height (n : Nat) : ∃ ts e, parse ts = .ok e ∧ e.height = n := by
  obtain ⟨ts, hChain⟩ := exists_derives_zeroChain depthLimit n
  rw [← List.append_nil ts] at hChain
  exact ⟨ts, zeroChain n, parse_of_derives (k := 0) hChain, height_zeroChain n⟩

/-- No bound holds for the height of all accepted trees. -/
theorem not_height_le_of_parse : ¬∃ bound, ∀ ts e, parse ts = .ok e → e.height ≤ bound := by
  rintro ⟨bound, hBound⟩
  obtain ⟨ts, e, hParse, hHeight⟩ := exists_parse_height (bound + 1)
  have := hBound ts e hParse
  omega

end Expr

end Calculator
