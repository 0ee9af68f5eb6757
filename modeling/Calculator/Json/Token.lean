import Calculator.Text.Basic

/-! The tokens of the data format of state files: punctuation, literals, numbers and strings. -/

namespace Calculator.Json

/-- A token. A string with an unpaired surrogate spells no text. -/
inductive Token where
  | beginObject | endObject | beginArray | endArray | colon | comma
  | null
  | bool (b : Bool)
  | number (numeral : Text)
  | string (s : Option Text)
deriving DecidableEq

/-- What one character or escape of a string stands for. -/
inductive CodeUnit where
  | char (c : Char)
  | surrogate (unit : Nat)
deriving DecidableEq

/-- The text of code units, in which a leading surrogate and a trailing one make a character. -/
def joinUnits : List CodeUnit → Option Text
  | [] => some []
  | .char c :: rest => (joinUnits rest).map (c :: ·)
  | .surrogate high :: .surrogate low :: rest =>
    if high < 0xDC00 ∧ 0xDC00 ≤ low then
      (joinUnits rest).map (Char.ofNat (0x10000 + (high - 0xD800) * 0x400 + (low - 0xDC00)) :: ·)
    else none
  | .surrogate _ :: _ => none

def hexDigit? (c : Char) : Option Nat :=
  if c.isDigit then some (c.toNat - 48)
  else if 'a' ≤ c ∧ c ≤ 'f' then some (c.toNat - 87)
  else if 'A' ≤ c ∧ c ≤ 'F' then some (c.toNat - 55)
  else none

def hexUnit? (a b c d : Char) : Option CodeUnit := do
  let digits ← [a, b, c, d].mapM hexDigit?
  let unit := digits.foldl (fun n digit => n * 16 + digit) 0
  return if 0xD800 ≤ unit ∧ unit < 0xE000 then .surrogate unit else .char (Char.ofNat unit)

def escaped? : Char → Option Char
  | '"' => some '"'
  | '\\' => some '\\'
  | '/' => some '/'
  | 'b' => some '\x08'
  | 'f' => some '\x0c'
  | 'n' => some '\n'
  | 'r' => some '\r'
  | 't' => some '\t'
  | _ => none

/-- Reads a string after its opening quote up to its closing one, and gives what follows. -/
def readUnits : Text → Option (List CodeUnit × Text)
  | [] => none
  | '"' :: rest => some ([], rest)
  | '\\' :: 'u' :: a :: b :: c :: d :: rest => do
    let unit ← hexUnit? a b c d
    let (units, rest) ← readUnits rest
    return (unit :: units, rest)
  | '\\' :: e :: rest => do
    let c ← escaped? e
    let (units, rest) ← readUnits rest
    return (.char c :: units, rest)
  | c :: rest => do
    if c.toNat < 0x20 ∨ c = '\\' then none
    else
      let (units, rest) ← readUnits rest
      return (.char c :: units, rest)

/-- What follows the digits at the front of a text, of which there has to be one. -/
def afterDigits? (s : Text) : Option Text :=
  if (s.takeWhile Char.isDigit).isEmpty then none else some (s.dropWhile Char.isDigit)

/-- What follows a whole number, which has no zero in front of other digits. -/
def afterWhole? : Text → Option Text
  | '0' :: rest => some rest
  | s => afterDigits? s

def afterFraction? : Text → Option Text
  | '.' :: rest => afterDigits? rest
  | s => some s

def afterSign : Text → Text
  | '+' :: rest => rest
  | '-' :: rest => rest
  | s => s

def afterExponent? : Text → Option Text
  | 'e' :: rest => afterDigits? (afterSign rest)
  | 'E' :: rest => afterDigits? (afterSign rest)
  | s => some s

/-- Whether a text is a number as the format writes it. -/
def isNumeral (s : Text) : Bool :=
  let unsigned := match s with
    | '-' :: rest => rest
    | _ => s
  (afterWhole? unsigned >>= afterFraction? >>= afterExponent?) == some []

def isNumeralChar (c : Char) : Bool :=
  c.isDigit || c == '-' || c == '+' || c == '.' || c == 'e' || c == 'E'

/-- Whether the character is one of the four blanks of the format. -/
def isSpace (c : Char) : Bool := c == ' ' || c == '\n' || c == '\t' || c == '\r'

/-- The token that starts with a character, and what follows it. -/
def Token.next? : Char → Text → Option (Token × Text)
  | '\x7b', rest => some (.beginObject, rest)
  | '\x7d', rest => some (.endObject, rest)
  | '[', rest => some (.beginArray, rest)
  | ']', rest => some (.endArray, rest)
  | ':', rest => some (.colon, rest)
  | ',', rest => some (.comma, rest)
  | 'n', 'u' :: 'l' :: 'l' :: rest => some (.null, rest)
  | 't', 'r' :: 'u' :: 'e' :: rest => some (.bool true, rest)
  | 'f', 'a' :: 'l' :: 's' :: 'e' :: rest => some (.bool false, rest)
  | '"', rest => (readUnits rest).map fun (units, rest) => (.string (joinUnits units), rest)
  | c, rest =>
    let numeral := c :: rest.takeWhile isNumeralChar
    if isNumeral numeral then some (.number numeral, rest.dropWhile isNumeralChar) else none

theorem length_le_of_readUnits {s rest : Text} {units : List CodeUnit}
    (h : readUnits s = some (units, rest)) : rest.length ≤ s.length := by
  fun_induction readUnits s generalizing units rest with
  | case1 => cases h
  | case2 r =>
    obtain ⟨-, rfl⟩ := Prod.mk.inj (Option.some.inj h)
    exact Nat.le_succ _
  | case3 a b c d r ih =>
    simp only [Option.bind_eq_bind, Option.bind_eq_some_iff] at h
    obtain ⟨_, _, ⟨units, r⟩, hr, h⟩ := h
    obtain ⟨-, rfl⟩ := Prod.mk.inj (Option.some.inj h)
    have := ih hr
    simp only [List.length_cons]
    omega
  | case4 e r _ ih =>
    simp only [Option.bind_eq_bind, Option.bind_eq_some_iff] at h
    obtain ⟨_, _, ⟨units, r⟩, hr, h⟩ := h
    obtain ⟨-, rfl⟩ := Prod.mk.inj (Option.some.inj h)
    have := ih hr
    simp only [List.length_cons]
    omega
  | case5 => cases h
  | case6 c r _ _ _ _ ih =>
    simp only [Option.bind_eq_bind, Option.bind_eq_some_iff] at h
    obtain ⟨⟨units, r⟩, hr, h⟩ := h
    obtain ⟨-, rfl⟩ := Prod.mk.inj (Option.some.inj h)
    exact Nat.le_succ_of_le (ih hr)

theorem Token.length_le_of_next? {c : Char} {rest after : Text} {t : Token}
    (h : Token.next? c rest = some (t, after)) : after.length ≤ rest.length := by
  unfold Token.next? at h
  split at h
  case h_10 =>
    simp only [Option.map_eq_some_iff, Prod.mk.injEq] at h
    obtain ⟨⟨units, r⟩, hr, -, rfl⟩ := h
    exact length_le_of_readUnits hr
  case h_11 =>
    dsimp only at h
    split at h
    · obtain ⟨-, rfl⟩ := Prod.mk.inj (Option.some.inj h)
      exact (List.dropWhile_suffix _).length_le
    · cases h
  case h_7 | h_8 | h_9 =>
    obtain ⟨-, rfl⟩ := Prod.mk.inj (Option.some.inj h)
    simp only [List.length_cons]
    omega
  all_goals
    obtain ⟨-, rfl⟩ := Prod.mk.inj (Option.some.inj h)
    exact Nat.le_refl _

def Token.scan? (s : Text) : Option (List Token) :=
  match s with
  | [] => some []
  | c :: rest =>
    if isSpace c then Token.scan? rest
    else match h : Token.next? c rest with
      | none => none
      | some (t, after) =>
        have := Token.length_le_of_next? h
        (Token.scan? after).map (t :: ·)
termination_by s.length

end Calculator.Json
