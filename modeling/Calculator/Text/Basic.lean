/-! Text as a list of characters, the blanks that separate its words, and the words themselves. -/

namespace Calculator

abbrev Text := List Char

/-- The characters that have the Unicode property `White_Space`. -/
def isBlank (c : Char) : Bool :=
  (9 ≤ c.toNat && c.toNat ≤ 13) || c.toNat == 0x20 || c.toNat == 0x85 || c.toNat == 0xA0 ||
  c.toNat == 0x1680 || (0x2000 ≤ c.toNat && c.toNat ≤ 0x200A) || c.toNat == 0x2028 ||
  c.toNat == 0x2029 || c.toNat == 0x202F || c.toNat == 0x205F || c.toNat == 0x3000

namespace Text

def trimEnd (s : Text) : Text := (s.reverse.dropWhile isBlank).reverse

def trim (s : Text) : Text := trimEnd (s.dropWhile isBlank)

def isAllBlank (s : Text) : Bool := s.all isBlank

/-- Puts `c` in front of the first word. -/
def joinFirst (c : Char) : List Text → List Text
  | [] => [[c]]
  | word :: words => (c :: word) :: words

/-- The longest runs of characters that are not blank. -/
def words : Text → List Text
  | [] => []
  | c :: rest =>
    if isBlank c then words rest
    else match rest with
      | [] => [[c]]
      | next :: _ => if isBlank next then [c] :: words rest else joinFirst c (words rest)

def joinWith (separator : Char) : List Text → Text
  | [] => []
  | [word] => word
  | word :: next :: words => word ++ separator :: joinWith separator (next :: words)

def endsWith (s tail : Text) : Bool := tail.isSuffixOf s

end Text

end Calculator
