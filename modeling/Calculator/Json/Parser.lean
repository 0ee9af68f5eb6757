import Calculator.Json.Token

/-! Values of the data format, and reading them from tokens, one token at a time, with a stack of
the arrays and objects that are still open. -/

namespace Calculator

/-- A value of the data format. The members of an object keep their order and may repeat a name. A
name or string with an unpaired surrogate spells no text. -/
inductive Json where
  | null
  | bool (b : Bool)
  | number (numeral : Text)
  | string (s : Option Text)
  | array (items : List Json)
  | object (members : List (Option Text × Json))

namespace Json.Parser

/-- An array or object that is still open, with what precedes the value that is due, last first. -/
inductive Frame where
  | array (before : List Json)
  | object (before : List (Option Text × Json)) (name : Option Text)

/-- Where the parser stands, with the innermost open value first. -/
inductive State where
  | value (stack : List Frame)
  | arrayStart (stack : List Frame)
  | objectStart (stack : List Frame)
  | name (stack : List Frame) (before : List (Option Text × Json))
  | colon (stack : List Frame) (before : List (Option Text × Json)) (name : Option Text)
  | complete (stack : List Frame) (v : Json)

/-- Reads a token where a value is due. -/
def stepValue (stack : List Frame) : Token → Option State
  | .null => some (.complete stack .null)
  | .bool b => some (.complete stack (.bool b))
  | .number numeral => some (.complete stack (.number numeral))
  | .string s => some (.complete stack (.string s))
  | .beginArray => some (.arrayStart stack)
  | .beginObject => some (.objectStart stack)
  | _ => none

def stepComplete (v : Json) : List Frame → Token → Option State
  | .array before :: stack, .comma => some (.value (.array (v :: before) :: stack))
  | .array before :: stack, .endArray => some (.complete stack (.array (v :: before).reverse))
  | .object before name :: stack, .comma => some (.name stack ((name, v) :: before))
  | .object before name :: stack, .endObject =>
    some (.complete stack (.object ((name, v) :: before).reverse))
  | _, _ => none

def step : State → Token → Option State
  | .value stack, t => stepValue stack t
  | .arrayStart stack, .endArray => some (.complete stack (.array []))
  | .arrayStart stack, t => stepValue (.array [] :: stack) t
  | .objectStart stack, .endObject => some (.complete stack (.object []))
  | .objectStart stack, .string name => some (.colon stack [] name)
  | .name stack before, .string name => some (.colon stack before name)
  | .colon stack before name, .colon => some (.value (.object before name :: stack))
  | .complete stack v, t => stepComplete v stack t
  | _, _ => none

def finish : State → Option Json
  | .complete [] v => some v
  | _ => none

end Json.Parser

namespace Json

def ofTokens? (ts : List Token) : Option Json :=
  ts.foldlM Parser.step (.value []) >>= Parser.finish

def parse? (s : Text) : Option Json := Token.scan? s >>= ofTokens?

def membersNamed (members : List (Option Text × Json)) (name : Text) : List Json :=
  (members.filter fun m => m.1 == some name).map Prod.snd

def text? : Json → Option Text
  | string s => s
  | _ => none

end Json

end Calculator
