import Calculator.Text.Letter
import Calculator.Numeric.Numeral
import Calculator.Token.Basic

/-! Splitting text into tokens. Blanks separate tokens and are dropped. A numeral, a word of letters
and `**` extend as far as they can; every other token is one character. -/

namespace Calculator

/-- Why a text has no tokens. Positions count characters from zero. -/
inductive LexError where
  | unknownCharacter (c : Char) (position : Nat)
  | invalidNumber (numeral : Text) (position : Nat)
deriving DecidableEq

def LexError.message : LexError → Text
  | unknownCharacter c position =>
    "unknown character '".toList ++ c :: "' at position ".toList ++ Nat.toDigits 10 position
  | invalidNumber numeral position =>
    "invalid number '".toList ++ numeral ++ "' at position ".toList ++ Nat.toDigits 10 position

namespace Token

/-- Whether a word can go on with the character. The sign `π` always stands alone. -/
def isWordChar (c : Char) : Bool := isLetter c && c != 'π'

/-- The token of a word, and what follows it. A function takes in a parenthesis that follows its
name directly. -/
def ofWord? (word rest : Text) : Option (Token × Text) :=
  match Constant.ofName? word with
  | some c => some (constant c, rest)
  | none =>
    match Func.ofName? word, rest with
    | some f, '(' :: rest => some (function f, rest)
    | some f, rest => some (bareFunction f, rest)
    | none, _ => none

/-- The token of a sign, and what follows it. Two asterisks stand for a power. -/
def ofSign? : Char → Text → Option (Token × Text)
  | '(', rest => some (openParen, rest)
  | ')', rest => some (closeParen, rest)
  | '*', '*' :: rest => some (operator .pow, rest)
  | c, rest => (Operator.ofChar? c).map fun op => (operator op, rest)

/-- The token that starts with `c` at a position, and what follows it. -/
def next (position : Nat) (c : Char) (rest : Text) : Except LexError (Token × Text) :=
  if c.isDigit || c == '.' then
    match Numeral.read? Numeral.isExpressionMark (c :: rest) with
    | some (d, rest) => .ok (number (d.toBinary64 false), rest)
    | none => .error (.invalidNumber ['.'] position)
  else if c == 'π' then .ok (constant .pi, rest)
  else
    let found :=
      if isLetter c then ofWord? (c :: rest.takeWhile isWordChar) (rest.dropWhile isWordChar)
      else ofSign? c rest
    match found with
    | some result => .ok result
    | none => .error (.unknownCharacter c position)

theorem length_le_of_ofWord? {word rest after : Text} {t : Token}
    (h : ofWord? word rest = some (t, after)) : after.length ≤ rest.length := by
  unfold ofWord? at h
  split at h
  · obtain ⟨-, rfl⟩ := Prod.mk.inj (Option.some.inj h)
    exact Nat.le_refl _
  · split at h
    · obtain ⟨-, rfl⟩ := Prod.mk.inj (Option.some.inj h)
      exact Nat.le_succ _
    · obtain ⟨-, rfl⟩ := Prod.mk.inj (Option.some.inj h)
      exact Nat.le_refl _
    · cases h

theorem length_le_of_ofSign? {c : Char} {rest after : Text} {t : Token}
    (h : ofSign? c rest = some (t, after)) : after.length ≤ rest.length := by
  unfold ofSign? at h
  split at h
  · obtain ⟨-, rfl⟩ := Prod.mk.inj (Option.some.inj h)
    exact Nat.le_refl _
  · obtain ⟨-, rfl⟩ := Prod.mk.inj (Option.some.inj h)
    exact Nat.le_refl _
  · obtain ⟨-, rfl⟩ := Prod.mk.inj (Option.some.inj h)
    exact Nat.le_succ _
  · simp only [Option.map_eq_some_iff, Prod.mk.injEq] at h
    obtain ⟨_, -, -, rfl⟩ := h
    exact Nat.le_refl _

/-- A token takes up its first character at least. -/
theorem length_le_of_next {position : Nat} {c : Char} {rest after : Text} {t : Token}
    (h : next position c rest = .ok (t, after)) : after.length ≤ rest.length := by
  unfold next at h
  split at h
  · split at h
    · rename_i hRead
      obtain ⟨-, rfl⟩ := Prod.mk.inj (Except.ok.inj h)
      exact Nat.le_of_lt_succ (Numeral.length_lt_of_read? hRead)
    · cases h
  · split at h
    · obtain ⟨-, rfl⟩ := Prod.mk.inj (Except.ok.inj h)
      exact Nat.le_refl _
    · dsimp only at h
      split at h
      · rename_i hFound
        obtain rfl := Except.ok.inj h
        split at hFound
        · exact Nat.le_trans (length_le_of_ofWord? hFound) (List.dropWhile_suffix _).length_le
        · exact length_le_of_ofSign? hFound
      · cases h

/-- The tokens of the text that stands at a position. -/
def scanAt (position : Nat) (s : Text) : Except LexError (List Token) :=
  match s with
  | [] => .ok []
  | c :: rest =>
    if isBlank c then scanAt (position + 1) rest
    else match h : next position c rest with
      | .error e => .error e
      | .ok (t, after) =>
        have := length_le_of_next h
        match scanAt (position + (rest.length + 1 - after.length)) after with
        | .error e => .error e
        | .ok ts => .ok (t :: ts)
termination_by s.length

def scan (s : Text) : Except LexError (List Token) := scanAt 0 s

end Token

end Calculator
