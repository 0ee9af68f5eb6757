import Calculator.Expr.Grammar
import Calculator.Proofs.ParserStack

/-! The parser accepts exactly the grammar, with the closing parentheses at the end of the text left
out or not. Soundness follows the stack: `Waits` says which tokens leave which constructs waiting, and
each step of the parser keeps the tokens read so far in that form. Completeness follows a derivation:
reading the tokens of a phrase has the effect of putting its expression on the stack. -/

namespace Calculator

/-- The place of a kind in the order from tightest to loosest. A phrase of one kind is one of every
later kind. -/
def Phrase.rank : Phrase → Nat
  | atom => 0
  | power => 1
  | signed => 2
  | product => 3
  | sum => 4

namespace Operator

def phrase : Operator → Phrase
  | add | sub => .sum
  | mul | div | mod => .product
  | pow => .power

def leftPhrase : Operator → Phrase
  | add | sub => .sum
  | mul | div | mod => .product
  | pow => .atom

def rightPhrase : Operator → Phrase
  | add | sub => .product
  | mul | div | mod | pow => .signed

theorem phrases_of_term {op : Operator} (h : op.strength = 1) :
    op.phrase = .sum ∧ op.rightPhrase = .product ∧ op ≠ .pow := by
  cases op with
  | add => simp [phrase, rightPhrase]
  | sub => simp [phrase, rightPhrase]
  | _ => cases h

theorem phrases_of_factor {op : Operator} (h : op.strength = 2) :
    op.phrase = .product ∧ op.rightPhrase = .signed ∧ op ≠ .pow := by
  cases op with
  | mul => simp [phrase, rightPhrase]
  | div => simp [phrase, rightPhrase]
  | mod => simp [phrase, rightPhrase]
  | _ => cases h

end Operator

namespace Pending

/-- The kind of phrase that a construct waits for. -/
def wants : Pending → Phrase
  | plus | minus => .signed
  | binary op _ => op.rightPhrase
  | group | call _ => .sum

/-- The kind of phrase that a construct makes of its operand. -/
def gives : Pending → Phrase
  | plus | minus => .signed
  | binary op _ => op.phrase
  | group | call _ => .atom

/-- An operator takes in what a construct makes when that binds its operand as tightly. -/
theorem rank_gives_le {p : Pending} {op : Operator} (h : op.strength ≤ p.strength) :
    p.gives.rank ≤ op.leftPhrase.rank := by
  cases p with
  | binary op' lhs =>
    revert h
    cases op <;> cases op' <;>
      simp [strength, gives, Operator.strength, Operator.phrase, Operator.leftPhrase, Phrase.rank]
  | _ =>
    revert h
    cases op <;> simp [strength, gives, Operator.strength, Operator.leftPhrase, Phrase.rank]

end Pending

namespace Derives

variable {limit depth : Nat} {ts us : List Token} {e lhs rhs : Expr}

theorem depth_le {kind : Phrase} (h : Derives limit kind depth ts e) : depth ≤ limit := by
  induction h with
  | number _ hDepth => exact hDepth
  | constant _ hDepth => exact hDepth
  | group _ ih => omega
  | call _ _ ih => omega
  | exponent _ _ ihBase _ => exact ihBase
  | minus _ ih => omega
  | plus _ ih => omega
  | atom _ ih => exact ih
  | power _ ih => exact ih
  | signed _ ih => exact ih
  | product _ ih => exact ih
  | factor _ _ _ ihLeft _ => exact ihLeft
  | term _ _ _ ihLeft _ => exact ihLeft

theorem exists_cons {kind : Phrase} (h : Derives limit kind depth ts e) :
    ∃ t rest, ts = t :: rest ∧ t ≠ .closeParen := by
  induction h with
  | number => exact ⟨_, _, rfl, by simp⟩
  | constant => exact ⟨_, _, rfl, by simp⟩
  | group => exact ⟨_, _, rfl, by simp⟩
  | call => exact ⟨_, _, rfl, by simp⟩
  | minus => exact ⟨_, _, rfl, by simp⟩
  | plus => exact ⟨_, _, rfl, by simp⟩
  | atom _ ih => exact ih
  | power _ ih => exact ih
  | signed _ ih => exact ih
  | product _ ih => exact ih
  | exponent _ _ ihBase _ =>
    obtain ⟨t, rest, rfl, hToken⟩ := ihBase
    exact ⟨t, _, rfl, hToken⟩
  | factor _ _ _ ihLeft _ =>
    obtain ⟨t, rest, rfl, hToken⟩ := ihLeft
    exact ⟨t, _, rfl, hToken⟩
  | term _ _ _ ihLeft _ =>
    obtain ⟨t, rest, rfl, hToken⟩ := ihLeft
    exact ⟨t, _, rfl, hToken⟩

theorem loosen {kind kind' : Phrase} (h : Derives limit kind depth ts e)
    (hRank : kind.rank ≤ kind'.rank) : Derives limit kind' depth ts e := by
  have ofSigned (h : Derives limit .signed depth ts e) (hRank : 2 ≤ kind'.rank) :
      Derives limit kind' depth ts e := by
    cases kind' with
    | signed => exact h
    | product => exact h.signed
    | sum => exact h.signed.product
    | _ => simp [Phrase.rank] at hRank
  have ofPower (h : Derives limit .power depth ts e) (hRank : 1 ≤ kind'.rank) :
      Derives limit kind' depth ts e := by
    cases kind' with
    | atom => simp [Phrase.rank] at hRank
    | power => exact h
    | _ => exact ofSigned h.power (by simp [Phrase.rank])
  cases kind with
  | atom =>
    cases kind' with
    | atom => exact h
    | _ => exact ofPower h.atom (by simp [Phrase.rank])
  | power => exact ofPower h hRank
  | signed => exact ofSigned h hRank
  | product =>
    cases kind' with
    | product => exact h
    | sum => exact h.product
    | _ => simp [Phrase.rank] at hRank
  | sum =>
    cases kind' with
    | sum => exact h
    | _ => simp [Phrase.rank] at hRank

/-- Two phrases around an operator; the exponent of a power lies one level deeper. -/
theorem binary (op : Operator) (hLeft : Derives limit op.leftPhrase depth ts lhs)
    (hRight : Derives limit op.rightPhrase
      (depth + (Pending.binary op lhs).nests.toNat) us rhs) :
    Derives limit op.phrase depth (ts ++ .operator op :: us) (.binary op lhs rhs) := by
  cases op with
  | add => exact .term rfl hLeft hRight
  | sub => exact .term rfl hLeft hRight
  | mul => exact .factor rfl hLeft hRight
  | div => exact .factor rfl hLeft hRight
  | mod => exact .factor rfl hLeft hRight
  | pow => exact .exponent hLeft hRight

end Derives

namespace Parser

/-- The innermost construct of the stack takes a phrase of the kind as its operand. -/
def Fits (kind : Phrase) (stack : List Pending) : Prop :=
  ∀ p ∈ stack.head?, kind.rank ≤ p.wants.rank

@[simp] theorem fits_nil (kind : Phrase) : Fits kind [] := by simp [Fits]

@[simp] theorem fits_cons {kind : Phrase} {p : Pending} {stack : List Pending} :
    Fits kind (p :: stack) ↔ kind.rank ≤ p.wants.rank := by simp [Fits]

theorem fits_of_rank_le {kind : Phrase} (stack : List Pending) (h : kind.rank ≤ 2) :
    Fits kind stack := by
  intro p _
  refine Nat.le_trans h ?_
  cases p with
  | binary op lhs => cases op <;> simp [Pending.wants, Operator.rightPhrase, Phrase.rank]
  | _ => simp [Pending.wants, Phrase.rank]

theorem Fits.tighten {kind kind' : Phrase} {stack : List Pending} (h : Fits kind stack)
    (hRank : kind'.rank ≤ kind.rank) : Fits kind' stack :=
  fun p hp => Nat.le_trans hRank (h p hp)

theorem fits_phrase_iff (op : Operator) (stack : List Pending) :
    Fits op.phrase stack ↔ Below op.strength stack := by
  cases stack with
  | nil => simp
  | cons p stack =>
    rw [fits_cons, below_cons]
    cases p with
    | binary op' lhs =>
      cases op <;> cases op' <;> simp [Pending.wants, Pending.strength, Operator.phrase,
        Operator.rightPhrase, Operator.strength, Phrase.rank]
    | _ =>
      cases op <;>
        simp [Pending.wants, Pending.strength, Operator.phrase, Operator.strength, Phrase.rank]

/-! ### Soundness -/

/-- `Waits stack ts`: the tokens `ts` are those of the constructs of the stack, from the outermost
to the innermost, each up to the operand that it waits for. -/
inductive Waits : List Pending → List Token → Prop
  | nil : Waits [] []
  | group {stack : List Pending} {ts : List Token} : Waits stack ts →
      Waits (.group :: stack) (ts ++ [.openParen])
  | call {stack : List Pending} {ts : List Token} (f : Func) : Waits stack ts →
      Waits (.call f :: stack) (ts ++ [.function f])
  | plus {stack : List Pending} {ts : List Token} : Waits stack ts →
      Waits (.plus :: stack) (ts ++ [.operator .add])
  | minus {stack : List Pending} {ts : List Token} : Waits stack ts →
      Waits (.minus :: stack) (ts ++ [.operator .sub])
  | binary {stack : List Pending} {ts us : List Token} {lhs : Expr} (op : Operator) :
      Waits stack ts → Fits op.phrase stack →
      Derives depthLimit op.leftPhrase (depth stack) us lhs →
      Waits (.binary op lhs :: stack) (ts ++ us ++ [.operator op])

theorem Waits.fill {p : Pending} {stack : List Pending} {ts us : List Token} {e : Expr}
    (h : Waits (p :: stack) ts) (hBinds : 0 < p.strength)
    (hArg : Derives depthLimit p.wants (depth (p :: stack)) us e) :
    ∃ ts' us', ts ++ us = ts' ++ us' ∧ Waits stack ts' ∧
      Derives depthLimit p.gives (depth stack) us' (p.fill e) ∧ Fits p.gives stack := by
  rw [depth_cons] at hArg
  cases h with
  | group _ => simp [Pending.strength] at hBinds
  | call _ _ => simp [Pending.strength] at hBinds
  | @plus _ before hWaits =>
    exact ⟨before, .operator .add :: us, by simp, hWaits, .plus hArg,
      fits_of_rank_le stack (by decide)⟩
  | @minus _ before hWaits =>
    exact ⟨before, .operator .sub :: us, by simp, hWaits, .minus hArg,
      fits_of_rank_le stack (by decide)⟩
  | @binary _ before left lhs op hWaits hFits hLeft =>
    exact ⟨before, left ++ .operator op :: us, by simp, hWaits, hLeft.binary op hArg, hFits⟩

/-- A construct that binds nothing is a group, which a closing parenthesis completes. -/
theorem Waits.closeGroup {p : Pending} {stack : List Pending} {ts us : List Token} {e : Expr}
    (h : Waits (p :: stack) ts) (hGroup : p.strength = 0)
    (hArg : Derives depthLimit .sum (depth (p :: stack)) us e) :
    ∃ ts' us', ts ++ us ++ [.closeParen] = ts' ++ us' ∧ Waits stack ts' ∧
      Derives depthLimit .atom (depth stack) us' (p.fill e) := by
  rw [depth_cons] at hArg
  cases h with
  | @group _ before hWaits =>
    exact ⟨before, .openParen :: us ++ [.closeParen], by simp, hWaits, .group hArg⟩
  | @call _ before f hWaits =>
    exact ⟨before, .function f :: us ++ [.closeParen], by simp, hWaits, .call f hArg⟩
  | plus _ => simp [Pending.strength] at hGroup
  | minus _ => simp [Pending.strength] at hGroup
  | binary op _ _ _ => cases op <;> simp [Pending.strength, Operator.strength] at hGroup

theorem Waits.unwind {stack : List Pending} {ts us : List Token} {e : Expr} {kind : Phrase}
    (op : Operator) (h : Waits stack ts) (hFits : Fits kind stack)
    (hRank : kind.rank ≤ op.leftPhrase.rank)
    (hArg : Derives depthLimit kind (depth stack) us e) :
    ∃ ts' us', ts ++ us = ts' ++ us' ∧ Waits (unwind op.strength stack e).1 ts' ∧
      Derives depthLimit op.leftPhrase (depth (unwind op.strength stack e).1) us'
        (unwind op.strength stack e).2 := by
  induction stack generalizing ts us e kind with
  | nil => exact ⟨ts, us, rfl, h, hArg.loosen hRank⟩
  | cons p stack ih =>
    by_cases hTakes : op.strength ≤ p.strength
    · rw [unwind_cons_of_le stack e hTakes]
      have hBinds : 0 < p.strength := Nat.lt_of_lt_of_le (by cases op <;> decide) hTakes
      obtain ⟨ts', us', hTokens, hWaits, hPhrase, hFits'⟩ :=
        h.fill hBinds (hArg.loosen (fits_cons.mp hFits))
      obtain ⟨before, left, hSplit, hResult⟩ :=
        ih hWaits hFits' (Pending.rank_gives_le hTakes) hPhrase
      exact ⟨before, left, hTokens.trans hSplit, hResult⟩
    · rw [unwind_of_below e (by rw [below_cons]; omega)]
      exact ⟨ts, us, rfl, h, hArg.loosen hRank⟩

/-- The tokens read before a state: those of what waits, and behind them those of the operand that
is complete, if there is one. -/
def Reads : State → List Token → Prop
  | .operand stack, ts => Waits stack ts ∧ depth stack ≤ depthLimit
  | .opened stack, ts => Waits stack ts
  | .complete stack e, ts =>
    ∃ before us, ts = before ++ us ∧ Waits stack before ∧
      Derives depthLimit .atom (depth stack) us e

theorem Reads.ready {state : State} {stack : List Pending} {ts : List Token} (h : Reads state ts)
    (hReady : Ready state stack) : Waits stack ts ∧ depth stack ≤ depthLimit := by
  cases hReady with
  | operand => exact h
  | opened hDepth => exact ⟨h, hDepth⟩

theorem Reads.step {state next : State} {ts : List Token} {t : Token} (h : Reads state ts)
    (hStep : step state t = .ok next) : Reads next (ts ++ [t]) := by
  have hAtom (stack : List Pending) : Fits .atom stack := fits_of_rank_le stack (by decide)
  cases reading_of_step hStep with
  | number x hReady =>
    obtain ⟨hWaits, hDepth⟩ := h.ready hReady
    exact ⟨ts, [.number x], rfl, hWaits, .number x hDepth⟩
  | constant c hReady =>
    obtain ⟨hWaits, hDepth⟩ := h.ready hReady
    exact ⟨ts, [.constant c], rfl, hWaits, .constant c hDepth⟩
  | openParen hReady => exact (h.ready hReady).1.group
  | function f hReady => exact (h.ready hReady).1.call f
  | plus hReady hDepth => exact ⟨(h.ready hReady).1.plus, hDepth⟩
  | minus hReady hDepth => exact ⟨(h.ready hReady).1.minus, hDepth⟩
  | @operator stack outer e lhs op hUnwind hDepth =>
    obtain ⟨before, us, rfl, hWaits, hArg⟩ := h
    obtain ⟨ts', us', hTokens, hWaits', hLeft⟩ :=
      hWaits.unwind op (hAtom stack) (Nat.zero_le _) hArg
    have hFits := (fits_phrase_iff op _).mpr (below_unwind op.strength stack e)
    rw [hUnwind] at hWaits' hLeft hFits
    exact ⟨hTokens ▸ hWaits'.binary op hFits hLeft, hDepth⟩
  | @closeParen stack outer e arg p hUnwind =>
    obtain ⟨before, us, rfl, hWaits, hArg⟩ := h
    -- a closing parenthesis unwinds like a sum, which takes in all that its group holds
    obtain ⟨ts', us', hTokens, hWaits', hContent⟩ :=
      hWaits.unwind .add (hAtom stack) (Nat.zero_le _) hArg
    have hUnwind' : Parser.unwind Operator.add.strength stack e = (p :: outer, arg) := hUnwind
    have hBelow := below_unwind 1 stack e
    rw [hUnwind'] at hWaits' hContent
    rw [hUnwind, below_cons] at hBelow
    rw [hTokens]
    exact hWaits'.closeGroup (by omega) hContent

theorem Reads.run {state final : State} {ts us : List Token} (h : Reads state ts)
    (hRun : run state us = .ok final) : Reads final (ts ++ us) := by
  induction us generalizing state ts with
  | nil =>
    cases hRun
    simpa using h
  | cons u us ih =>
    obtain ⟨next, hStep, hRest⟩ := run_cons_eq_ok_iff.mp hRun
    simpa using ih (h.step hStep) hRest

/-- Closing every group that is still open completes what waits. -/
theorem Waits.exists_closeParens {stack : List Pending} {ts us : List Token} {e : Expr}
    {kind : Phrase} (h : Waits stack ts) (hFits : Fits kind stack)
    (hArg : Derives depthLimit kind (depth stack) us e) :
    ∃ k, Derives depthLimit .sum 0 (ts ++ us ++ List.replicate k .closeParen) (close stack e) := by
  induction stack generalizing ts us e kind with
  | nil =>
    cases h
    exact ⟨0, by simpa using hArg.loosen (by cases kind <;> decide)⟩
  | cons p stack ih =>
    have hOperand := hArg.loosen (fits_cons.mp hFits)
    by_cases hBinds : 0 < p.strength
    · obtain ⟨ts', us', hTokens, hWaits, hPhrase, hFits'⟩ := h.fill hBinds hOperand
      rw [hTokens]
      exact ih hWaits hFits' hPhrase
    · obtain ⟨ts', us', hTokens, hWaits, hAtom⟩ :=
        h.closeGroup (by omega) (hOperand.loosen (by cases p.wants <;> decide))
      obtain ⟨k, hk⟩ := ih hWaits (fits_of_rank_le stack (by decide)) hAtom
      rw [← hTokens] at hk
      exact ⟨k + 1, by simpa [List.replicate_succ] using hk⟩

/-! ### Completeness -/

/-- Reading the tokens `ts` under the stack has the effect that the operand `e` is complete under it,
for every operator that binds at most as tightly as `strength`. -/
def Completes (stack : List Pending) (ts : List Token) (strength : Nat) (e : Expr) : Prop :=
  ∃ inner arg, run (.operand stack) ts = .ok (.complete inner arg) ∧
    ∀ s ≤ strength, unwind s inner arg = unwind s stack e

variable {stack : List Pending} {ts us : List Token} {e lhs rhs : Expr}

theorem Completes.mono {strength strength' : Nat} (h : Completes stack ts strength e)
    (hLe : strength' ≤ strength) : Completes stack ts strength' e := by
  obtain ⟨inner, arg, hRun, hUnwind⟩ := h
  exact ⟨inner, arg, hRun, fun s hs => hUnwind s (Nat.le_trans hs hLe)⟩

theorem Completes.fill {p : Pending} {strength : Nat} (h : Completes (p :: stack) ts strength e)
    (hBinds : strength ≤ p.strength) :
    ∃ inner arg, run (.operand (p :: stack)) ts = .ok (.complete inner arg) ∧
      ∀ s ≤ strength, unwind s inner arg = unwind s stack (p.fill e) := by
  obtain ⟨inner, arg, hRun, hUnwind⟩ := h
  refine ⟨inner, arg, hRun, fun s hs => ?_⟩
  rw [hUnwind s hs, unwind_cons_of_le stack e (Nat.le_trans hs hBinds)]

theorem Completes.sign {op : Operator} {p : Pending} (hDepth : depth (p :: stack) ≤ depthLimit)
    (hSign : step (.operand stack) (.operator op) = descend (p :: stack))
    (hBinds : p.strength = 3) (h : Completes (p :: stack) ts 3 e) :
    Completes stack (.operator op :: ts) 3 (p.fill e) := by
  obtain ⟨inner, arg, hRun, hUnwind⟩ := h.fill (by omega)
  refine ⟨inner, arg, ?_, hUnwind⟩
  rw [run_cons_of_step ts (hSign.trans (descend_of_le hDepth)), hRun]

/-- Behind a phrase that it takes on its left, an operator waits for its right operand. -/
theorem Completes.run_operator {strength : Nat} {op : Operator}
    (hLeft : Completes stack ts strength lhs) (hTakes : op.strength ≤ strength)
    (hFits : Fits op.phrase stack) (us : List Token) :
    run (.operand stack) (ts ++ .operator op :: us) =
      descend (.binary op lhs :: stack) >>= fun next => run next us := by
  obtain ⟨inner, arg, hRun, hUnwind⟩ := hLeft
  have hStep : step (.complete inner arg) (.operator op) = descend (.binary op lhs :: stack) := by
    simp only [step, stepComplete]
    rw [hUnwind op.strength hTakes, unwind_of_below lhs ((fits_phrase_iff op stack).mp hFits)]
  rw [run_append_of_run _ hRun, run_cons, hStep]

theorem Completes.binary {strength strength' : Nat} (op : Operator)
    (hLeft : Completes stack ts strength lhs) (hTakes : op.strength ≤ strength)
    (hFits : Fits op.phrase stack) (hDepth : depth (.binary op lhs :: stack) ≤ depthLimit)
    (hRight : Completes (.binary op lhs :: stack) us strength' rhs)
    (hBinds : strength' ≤ (Pending.binary op lhs).strength) :
    Completes stack (ts ++ .operator op :: us) strength' (.binary op lhs rhs) := by
  obtain ⟨inner, arg, hRun, hUnwind⟩ := hRight.fill hBinds
  refine ⟨inner, arg, ?_, hUnwind⟩
  rw [hLeft.run_operator hTakes hFits us, descend_of_le hDepth]
  exact hRun

/-- Sums and products do not nest their operands. -/
theorem Completes.operands {op : Operator} (hPow : op ≠ .pow) (hFits : Fits op.phrase stack)
    (hDepth : depth stack ≤ depthLimit) (hLeft : Completes stack ts op.strength lhs)
    (hRight : depth (.binary op lhs :: stack) = depth stack →
      Fits op.rightPhrase (.binary op lhs :: stack) →
      Completes (.binary op lhs :: stack) us op.strength rhs) :
    Completes stack (ts ++ .operator op :: us) op.strength (.binary op lhs rhs) := by
  have hSame := depth_binary lhs stack hPow
  have hTakes : Fits op.rightPhrase (.binary op lhs :: stack) := fits_cons.mpr (Nat.le_refl _)
  exact .binary op hLeft (Nat.le_refl _) hFits (hSame ▸ hDepth) (hRight hSame hTakes)
    (Nat.le_of_eq (Pending.strength_binary lhs hPow).symm)

theorem Completes.group {p : Pending} {opener : Token} {kind : Phrase}
    (hOpener : step (.operand stack) opener = .ok (.opened (p :: stack)))
    (hGroup : p.strength = 0)
    (hPhrase : Derives depthLimit kind (depth (p :: stack)) ts e)
    (h : Completes (p :: stack) ts 1 e) :
    Completes stack (opener :: ts ++ [.closeParen]) 4 (p.fill e) := by
  obtain ⟨inner, arg, hRun, hUnwind⟩ := h
  refine ⟨stack, p.fill e, ?_, fun _ _ => rfl⟩
  have hOpened : run (.opened (p :: stack)) ts = .ok (.complete inner arg) := by
    obtain ⟨t, rest, rfl, hToken⟩ := hPhrase.exists_cons
    rw [run_cons] at hRun ⊢
    rwa [step_opened hPhrase.depth_le hToken]
  have hClose : step (.complete inner arg) .closeParen = .ok (.complete stack (p.fill e)) := by
    simp only [step, stepComplete]
    rw [hUnwind 1 (Nat.le_refl 1), unwind_of_below e (by rw [below_cons]; omega)]
  rw [List.cons_append, run_cons_of_step _ hOpener, run_append_of_run _ hOpened,
    run_cons_of_step _ hClose, run_nil]

end Parser

/-- How tightly an operator may bind and still take a phrase of the kind on its left as a whole. -/
def Phrase.strength : Phrase → Nat
  | sum => 1
  | product => 2
  | signed | power => 3
  | atom => 4

namespace Parser

/-- Reading a phrase completes its expression under every stack that takes such a phrase. -/
theorem completes_of_derives {kind : Phrase} {d : Nat} (h : Derives depthLimit kind d ts e)
    {stack : List Pending} (hDepth : depth stack = d) (hFits : Fits kind stack) :
    Completes stack ts kind.strength e := by
  induction h generalizing stack with
  | number x _ => exact ⟨stack, .number x, rfl, fun _ _ => rfl⟩
  | constant c _ => exact ⟨stack, .constant c, rfl, fun _ _ => rfl⟩
  | group hInner ih =>
    subst hDepth
    have hDeeper : depth (.group :: stack) = depth stack + 1 := depth_cons ..
    exact .group rfl rfl (hDeeper ▸ hInner) (ih hDeeper (fits_cons.mpr (by decide)))
  | call f hInner ih =>
    subst hDepth
    have hDeeper : depth (.call f :: stack) = depth stack + 1 := depth_cons ..
    exact .group rfl rfl (hDeeper ▸ hInner) (ih hDeeper (fits_cons.mpr (Nat.le_refl 4)))
  | minus hArg ih =>
    subst hDepth
    have hDeeper : depth (.minus :: stack) = depth stack + 1 := depth_cons ..
    exact .sign (hDeeper ▸ hArg.depth_le) rfl rfl (ih hDeeper (fits_cons.mpr (by decide)))
  | plus hArg ih =>
    subst hDepth
    have hDeeper : depth (.plus :: stack) = depth stack + 1 := depth_cons ..
    exact .sign (hDeeper ▸ hArg.depth_le) rfl rfl (ih hDeeper (fits_cons.mpr (by decide)))
  | atom _ ih => exact (ih hDepth (hFits.tighten (by decide))).mono (by decide)
  | power _ ih => exact ih hDepth (hFits.tighten (by decide))
  | signed _ ih => exact (ih hDepth (hFits.tighten (by decide))).mono (by decide)
  | product _ ih => exact (ih hDepth (hFits.tighten (by decide))).mono (by decide)
  | @exponent _ _ _ lhs _ _ hRight ihLeft ihRight =>
    subst hDepth
    have hDeeper : depth (.binary .pow lhs :: stack) = depth stack + 1 := depth_cons ..
    exact .binary .pow (ihLeft rfl (hFits.tighten (by decide))) (Nat.le_refl 4) hFits
      (hDeeper ▸ hRight.depth_le) (ihRight hDeeper (fits_cons.mpr (Nat.le_refl 2)))
      (Nat.le_refl 3)
  | @factor _ _ _ lhs _ op hOp _ hRight ihLeft ihRight =>
    subst hDepth
    obtain ⟨hPhrase, hRightPhrase, hPow⟩ := Operator.phrases_of_factor hOp
    change Completes stack _ 2 _
    rw [← hOp]
    refine .operands hPow (hPhrase ▸ hFits) hRight.depth_le (hOp ▸ ihLeft rfl hFits) ?_
    rw [hRightPhrase, hOp]
    exact fun hSame hTakes => (ihRight hSame hTakes).mono (by decide)
  | @term _ _ _ lhs _ op hOp _ hRight ihLeft ihRight =>
    subst hDepth
    obtain ⟨hPhrase, hRightPhrase, hPow⟩ := Operator.phrases_of_term hOp
    change Completes stack _ 1 _
    rw [← hOp]
    refine .operands hPow (hPhrase ▸ hFits) hRight.depth_le (hOp ▸ ihLeft rfl hFits) ?_
    rw [hRightPhrase, hOp]
    exact fun hSame hTakes => (ihRight hSame hTakes).mono (by decide)

end Parser

namespace Expr

open Calculator.Parser

/-- A list that the parser accepts is a sum once the groups that it leaves open are closed. -/
theorem exists_derives_of_parse {ts : List Token} {e : Expr} (h : parse ts = .ok e) :
    ∃ k, Derives depthLimit .sum 0 (ts ++ List.replicate k .closeParen) e := by
  obtain ⟨stack, arg, hRun, rfl⟩ := parse_eq_ok_iff.mp h
  have hStart : Reads (.operand []) [] := ⟨.nil, by decide⟩
  obtain ⟨before, us, hTokens, hWaits, hArg⟩ := hStart.run hRun
  rw [List.nil_append] at hTokens
  rw [hTokens]
  exact hWaits.exists_closeParens (fits_of_rank_le stack (by decide)) hArg

theorem parse_of_derives {ts : List Token} {e : Expr} {k : Nat}
    (h : Derives depthLimit .sum 0 (ts ++ List.replicate k .closeParen) e) : parse ts = .ok e := by
  obtain ⟨inner, arg, hRun, hUnwind⟩ := completes_of_derives h depth_nil (fits_nil .sum)
  obtain ⟨state, hFirst, hRest⟩ := run_append_eq_ok_iff.mp hRun
  obtain ⟨stack, operand, rfl, hClose⟩ := complete_of_run_closeParens hRest
  refine parse_eq_ok_iff.mpr ⟨stack, operand, hFirst, ?_⟩
  rw [hClose, ← close_unwind 1 inner arg, hUnwind 1 (Nat.le_refl 1)]
  rfl

/-- The parser accepts a list of tokens exactly when the list, with some number of closing
parentheses added at its end, is a sum of the grammar in which no operand lies under more than 256
groups, signs and exponents; the result is the expression of that sum, and no list is a sum of two
expressions. -/
theorem parse_eq_ok_iff_derives (ts : List Token) :
    (∀ e, parse ts = .ok e ↔ ∃ k, Derives 256 .sum 0 (ts ++ List.replicate k .closeParen) e) ∧
    ∀ j k e e', Derives 256 .sum 0 (ts ++ List.replicate j .closeParen) e →
      Derives 256 .sum 0 (ts ++ List.replicate k .closeParen) e' → e = e' := by
  refine ⟨fun e => ⟨exists_derives_of_parse, fun ⟨_, h⟩ => parse_of_derives h⟩, ?_⟩
  intro j k e e' h h'
  have hFirst : parse ts = .ok e := parse_of_derives h
  have hSecond : parse ts = .ok e' := parse_of_derives h'
  rw [hFirst, Except.ok.injEq] at hSecond
  exact hSecond

end Expr

end Calculator
