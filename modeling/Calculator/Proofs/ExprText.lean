import Calculator.Expr.Measures
import Calculator.Proofs.Grammar
import Calculator.Proofs.Scanning

/-! The text of an expression is read back as the expression. The text has known tokens, and these are
a phrase of the grammar at every depth that leaves room for the expression's nesting; where there is
no room, the parser runs into its limit. -/

namespace Calculator

namespace Expr

/-- All numbers of the expression are finite and have their sign bit clear. -/
def Unsigned : Expr → Prop
  | number x => ∃ m, x = .finite false m
  | constant _ => True
  | neg arg => arg.Unsigned
  | binary _ lhs rhs => lhs.Unsigned ∧ rhs.Unsigned
  | call _ arg => arg.Unsigned

/-- The tokens of the expression's text. -/
def tokens : Expr → List Token
  | number x => [.number x]
  | constant c => [.constant c]
  | neg arg => .openParen :: (.operator .sub :: arg.tokens) ++ [.closeParen]
  | binary op lhs rhs => .openParen :: (lhs.tokens ++ .operator op :: rhs.tokens) ++ [.closeParen]
  | call f arg => .function f :: arg.tokens ++ [.closeParen]

theorem nesting_binary (op : Operator) (lhs rhs : Expr) :
    (binary op lhs rhs).nesting =
      max lhs.nesting (rhs.nesting + (Pending.binary op lhs).nests.toNat) + 1 := by
  cases op <;> rfl

/-! ### Tokens of the text -/

open Token in
/-- The text has its tokens in front of every text that extends neither a numeral nor a word. -/
theorem scans_text {e : Expr} (h : e.Unsigned) {rest : Text} {ts : List Token}
    (hRest : HeadFails isExtension rest) (hScans : Scans rest ts) :
    Scans (e.text ++ rest) (e.tokens ++ ts) := by
  induction e generalizing rest ts with
  | number x =>
    obtain ⟨m, rfl⟩ := h
    exact (isNumeral_shortest m).scans hRest hScans
  | constant c => exact hScans.constant c hRest
  | neg arg ih =>
    have hArg := ih h (headFails_cons.mpr (by decide)) hScans.closeParen
    simpa [text, tokens] using hArg.minus.openParen
  | binary op lhs rhs ihLeft ihRight =>
    have hRight := ihRight h.2 (headFails_cons.mpr (by decide)) hScans.closeParen
    have hLeft := ihLeft h.1 (headFails_cons.mpr (by decide)) (hRight.operator op)
    simpa [text, tokens] using hLeft.openParen
  | call f arg ih =>
    have hArg := ih h (headFails_cons.mpr (by decide)) hScans.closeParen
    simpa [text, tokens] using hArg.function f

theorem scan_text {e : Expr} (h : e.Unsigned) : Token.scan e.text = .ok e.tokens := by
  have hScans := scans_text h (headFails_nil Token.isExtension) Token.scans_nil 0
  rwa [List.append_nil, List.append_nil] at hScans

/-! ### Parsing the tokens -/

/-- The tokens of an expression are a group or a single operand. -/
theorem derives_tokens (e : Expr) {limit depth : ℕ} (h : depth + e.nesting ≤ limit) :
    Derives limit .atom depth e.tokens e := by
  induction e generalizing depth with
  | number x => exact .number x (Nat.le_of_add_right_le h)
  | constant c => exact .constant c (Nat.le_of_add_right_le h)
  | neg arg ih =>
    have hArg : Derives limit .atom (depth + 1 + 1) arg.tokens arg :=
      ih (by rw [nesting] at h; omega)
    exact .group (.product (.signed (.minus (.power (.atom hArg)))))
  | binary op lhs rhs ihLeft ihRight =>
    rw [nesting_binary] at h
    have hLeft : Derives limit .atom (depth + 1) lhs.tokens lhs := ihLeft (by omega)
    have hRight : Derives limit .atom (depth + 1 + (Pending.binary op lhs).nests.toNat)
        rhs.tokens rhs := ihRight (by omega)
    have hBinary := Derives.binary op (hLeft.loosen (Nat.zero_le _))
      (hRight.loosen (Nat.zero_le _))
    exact .group (hBinary.loosen (by cases op <;> decide))
  | call f arg ih =>
    have hArg : Derives limit .atom (depth + 1) arg.tokens arg :=
      ih (by rw [nesting] at h; omega)
    exact .call f (hArg.loosen (Nat.zero_le _))

theorem exists_tokens_eq_cons (e : Expr) :
    ∃ t rest, e.tokens = t :: rest ∧ t ≠ .closeParen := by
  have h : Derives e.nesting .atom 0 e.tokens e := e.derives_tokens (by omega)
  exact h.exists_cons

end Expr

namespace Parser

variable {state : State} {stack : List Pending} {ts us : List Token} {error : ParseError}

theorem run_append_of_error (us : List Token) (h : run state ts = .error error) :
    run state (ts ++ us) = .error error := by
  rw [run_append, h]
  rfl

/-- Whatever stands in a group, the group is too deep when it starts too deep or its content is. -/
theorem run_group_tooDeep {p : Pending} {opener : Token}
    (hOpener : step (.operand stack) opener = .ok (.opened (p :: stack)))
    (hFirst : ∃ t rest, ts = t :: rest ∧ t ≠ .closeParen)
    (hContent : depth (p :: stack) ≤ depthLimit →
      run (.operand (p :: stack)) ts = .error (.malformed .tooDeep)) :
    run (.operand stack) (opener :: ts ++ us) = .error (.malformed .tooDeep) := by
  obtain ⟨t, rest, rfl, hToken⟩ := hFirst
  rw [List.cons_append, run_cons_of_step _ hOpener]
  refine run_append_of_error us ?_
  rcases Nat.lt_or_ge depthLimit (depth (p :: stack)) with hDeep | hRoom
  · rw [run_cons, step_opened_of_lt hDeep hToken]
    rfl
  · rw [← hContent hRoom, run_cons, run_cons, step_opened hRoom hToken]
    rfl

theorem run_descend_tooDeep (stack : List Pending)
    (h : depth stack ≤ depthLimit → run (.operand stack) ts = .error (.malformed .tooDeep)) :
    (descend stack >>= fun next => run next ts) = .error (.malformed .tooDeep) := by
  rcases Nat.lt_or_ge depthLimit (depth stack) with hDeep | hRoom
  · rw [descend_of_lt hDeep]
    rfl
  · rw [descend_of_le hRoom]
    exact h hRoom

/-- The parser gives up on the tokens of an expression when its nesting exceeds the room that the
stack leaves. -/
theorem run_tokens_tooDeep (e : Expr) {stack : List Pending} (hDepth : depth stack ≤ depthLimit)
    (hNesting : depthLimit < depth stack + e.nesting) :
    run (.operand stack) e.tokens = .error (.malformed .tooDeep) := by
  induction e generalizing stack with
  | number x => exact absurd hNesting (Nat.not_lt.mpr hDepth)
  | constant c => exact absurd hNesting (Nat.not_lt.mpr hDepth)
  | neg arg ih =>
    refine run_group_tooDeep (p := .group) rfl ⟨_, _, rfl, by simp⟩ fun _ => ?_
    refine run_descend_tooDeep (.minus :: .group :: stack) fun hRoom => ih hRoom ?_
    rw [Expr.nesting] at hNesting
    rw [depth_cons, depth_cons]
    simp only [Pending.nests, Bool.toNat_true]
    omega
  | call f arg ih =>
    refine run_group_tooDeep (p := .call f) rfl arg.exists_tokens_eq_cons fun hRoom => ih hRoom ?_
    rw [Expr.nesting] at hNesting
    rw [depth_cons]
    simp only [Pending.nests, Bool.toNat_true]
    omega
  | binary op lhs rhs ihLeft ihRight =>
    have hGroup : depth (.group :: stack) = depth stack + 1 := depth_cons ..
    rw [Expr.nesting_binary] at hNesting
    obtain ⟨t, rest, hTokens, hToken⟩ := lhs.exists_tokens_eq_cons
    refine run_group_tooDeep (p := .group) rfl ⟨t, _, by rw [hTokens]; rfl, hToken⟩ fun hRoom => ?_
    rcases Nat.lt_or_ge depthLimit (depth (.group :: stack) + lhs.nesting) with hLeft | hLeft
    · exact run_append_of_error _ (ihLeft hRoom hLeft)
    · have hFits : Fits op.phrase (.group :: stack) := fits_cons.mpr (by cases op <;> decide)
      have hComplete := completes_of_derives (lhs.derives_tokens hLeft) rfl
        (fits_of_rank_le (.group :: stack) (by decide))
      rw [hComplete.run_operator (by cases op <;> decide) hFits]
      refine run_descend_tooDeep _ fun hDescend => ihRight hDescend ?_
      rw [depth_cons]
      omega

end Parser

namespace Expr

/-- The text of an expression without negative or infinite numbers is read back: it has tokens, and
they are parsed as the very same expression when it nests at most 256 deep, and rejected as nested
too deeply when it nests deeper. -/
theorem parse_tokens_of_text (e : Expr) (h : e.Unsigned) :
    ∃ ts, Token.scan e.text = .ok ts ∧ (e.nesting ≤ 256 → parse ts = .ok e) ∧
      (256 < e.nesting → ∃ fault, parse ts = .error (.malformed fault) ∧
        fault.message = "expression nested too deeply".toList) := by
  refine ⟨e.tokens, scan_text h, fun hShallow => ?_, fun hDeep => ⟨.tooDeep, ?_, rfl⟩⟩
  · have hAtom : Derives Parser.depthLimit .atom 0 e.tokens e :=
      e.derives_tokens (by rw [Nat.zero_add]; exact hShallow)
    have hSum : Derives Parser.depthLimit .sum 0 e.tokens e := hAtom.loosen (Nat.zero_le _)
    rw [← List.append_nil e.tokens] at hSum
    exact parse_of_derives (k := 0) hSum
  · have hRun : Parser.run (.operand []) e.tokens = .error (.malformed .tooDeep) :=
      Parser.run_tokens_tooDeep e (Nat.zero_le _)
        (by rw [Parser.depth_nil, Nat.zero_add]; exact hDeep)
    rw [parse, hRun]
    rfl

/-- A signed constant to a power within a function. -/
theorem parse_tokens_of_text_of_sin_power :
    ∃ ts, Token.scan (call .sin (binary .pow (neg (constant .e)) (number .pi))).text = .ok ts ∧
      parse ts = .ok (call .sin (binary .pow (neg (constant .e)) (number .pi))) := by
  obtain ⟨ts, hScan, hParse, -⟩ := parse_tokens_of_text
    (call .sin (binary .pow (neg (constant .e)) (number .pi))) ⟨trivial, _, rfl⟩
  exact ⟨ts, hScan, hParse (by decide)⟩

end Expr

end Calculator
