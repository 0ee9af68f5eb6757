import Calculator.Text.Basic

/-! Writing the data format: quoted strings, and arrays and objects with one item a line. -/

namespace Calculator.Json

/-- A character inside quotes. Quotes, backslashes and control characters are escaped. -/
def escape (c : Char) : Text :=
  if c = '"' then ['\\', '"']
  else if c = '\\' then ['\\', '\\']
  else if c = '\x08' then ['\\', 'b']
  else if c = '\x0c' then ['\\', 'f']
  else if c = '\n' then ['\\', 'n']
  else if c = '\r' then ['\\', 'r']
  else if c = '\t' then ['\\', 't']
  else if c.toNat < 0x20 then
    "\\u00".toList ++ [Nat.digitChar (c.toNat / 16), Nat.digitChar (c.toNat % 16)]
  else [c]

def quote (s : Text) : Text := '"' :: s.flatMap escape ++ ['"']

/-- A line break and the blanks at the start of the next line. -/
def newline (indent : Nat) : Text := '\n' :: List.replicate indent ' '

/-- Items between brackets, one a line and two blanks further in; no line for no item. -/
def writeBlock (opening closing : Char) (indent : Nat) (items : List Text) : Text :=
  if items.isEmpty then [opening, closing]
  else
    let lines := items.map fun item => newline (indent + 2) ++ item
    opening :: Text.joinWith ',' lines ++ newline indent ++ [closing]

def writeArray (indent : Nat) (items : List Text) : Text := writeBlock '[' ']' indent items

def writeObject (indent : Nat) (members : List (Text × Text)) : Text :=
  writeBlock '\x7b' '\x7d' indent (members.map fun m => quote m.1 ++ ':' :: ' ' :: m.2)

end Calculator.Json
