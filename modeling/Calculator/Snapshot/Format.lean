import Calculator.Json.Parser
import Calculator.Json.Writer
import Calculator.Snapshot.Basic

/-! The text of a stored snapshot. It is written as an object of four members. Reading takes the
members in any order, skips members of other names, supplies what is missing, and also takes an
array of the values in order; a member given twice or with a value of the wrong kind is refused. -/

namespace Calculator.Snapshot

/-- The names of the members, in the order in which they are written. -/
def angleName : Text := "angle_mode".toList
def themeName : Text := "theme".toList
def memoryName : Text := "memory".toList
def historyName : Text := "history".toList
def expressionName : Text := "expression".toList
def resultName : Text := "result".toList

def writeCalculation (indent : Nat) (c : Calculation) : Text :=
  Json.writeObject indent
    [(expressionName, Json.quote c.expression), (resultName, Json.quote c.result)]

def write (s : Snapshot) : Text :=
  Json.writeObject 0
    [(angleName, Json.quote s.angle.code), (themeName, Json.quote s.theme.code),
     (memoryName, Json.quote s.memory),
     (historyName, Json.writeArray 2 (s.history.map (writeCalculation 4)))]

/-- The word of a choice, which stands as a string or as the only member of an object, over
`null`. -/
def choice? : Json → Option Text
  | .string s => s
  | .object [(name, .null)] => name
  | _ => none

def readAngle? (v : Json) : Option Angle := choice? v >>= Angle.ofCode?

def readTheme? (v : Json) : Option Theme := choice? v >>= Theme.ofCode?

/-- Reads what may be missing but not given twice. -/
def readOptional? (read? : Json → Option α) (default : α) : List Json → Option α
  | [] => some default
  | [v] => read? v
  | _ => none

def readRequired? (read? : Json → Option α) : List Json → Option α
  | [v] => read? v
  | _ => none

/-- Reads a calculation: an object with both members, or an array of both texts. -/
def readCalculation? : Json → Option Calculation
  | .object members =>
    if members.all fun m => m.1.isSome then do
      let expression ← readRequired? Json.text? (Json.membersNamed members expressionName)
      let result ← readRequired? Json.text? (Json.membersNamed members resultName)
      return ⟨expression, result⟩
    else none
  | .array [expression, result] => do return ⟨← expression.text?, ← result.text?⟩
  | _ => none

def readHistory? : Json → Option (List Calculation)
  | .array items => items.mapM readCalculation?
  | _ => none

/-- Reads a snapshot from the values given for each of its members. -/
def ofValues? (angle theme memory history : List Json) : Option Snapshot := do
  let angle ← readOptional? readAngle? initial.angle angle
  let theme ← readOptional? readTheme? initial.theme theme
  let memory ← readOptional? Json.text? initial.memory memory
  let history ← readOptional? readHistory? initial.history history
  return ⟨angle, theme, memory, history⟩

def ofJson? : Json → Option Snapshot
  | .object members =>
    if members.all fun m => m.1.isSome then
      ofValues? (Json.membersNamed members angleName) (Json.membersNamed members themeName)
        (Json.membersNamed members memoryName) (Json.membersNamed members historyName)
    else none
  | .array items =>
    if items.length ≤ 4 then
      ofValues? items[0]?.toList items[1]?.toList items[2]?.toList items[3]?.toList
    else none
  | _ => none

def read? (s : Text) : Option Snapshot := Json.parse? s >>= ofJson?

end Calculator.Snapshot
