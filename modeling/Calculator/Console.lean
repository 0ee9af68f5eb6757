import Calculator.Session.Operation

/-! The line-by-line interface: a line is an expression to commit or a command. -/

namespace Calculator

/-- What comes of a line: the session after it, what is printed, and whether to go on. -/
structure Reply where
  session : Session
  output : Text
  goesOn : Bool

namespace Console

def line (s : Text) : Text := s ++ ['\n']

def help : Text :=
  List.flatMap (fun s : String => line s.toList)
    ["Type an expression to evaluate it, or a command:",
     "  :keys <id>...     press buttons, e.g. `:keys 2 ^ 1 0 =` or `:keys sin 3 0 )`",
     "  :history          list recent calculations, newest first",
     "  :replay <n>       load history entry n into the input",
     "  :clear-history    forget all history entries",
     "  :angle [rad|deg]  toggle or set the angle mode",
     "  :theme            toggle between light and dark",
     "  :mem              show the memory register",
     "  exit              leave"]

/-- The buffer and its preview, marked when the second set of functions is active. -/
def stateLine (s : Session) : Text :=
  (if s.second then "[2nd] ".toList else []) ++ s.displayInput ++
    (match s.preview with
      | some result => "  = ".toList ++ result
      | none => []) ++ ['\n']

/-- A calculation with its index, which takes up two columns at least. -/
def historyLine (index : Nat) (c : Calculation) : Text :=
  line ((Nat.toDigits 10 index).leftpad 2 ' ' ++ ": ".toList ++ c.expression ++ " = ".toList ++
    c.result)

def historyLines (h : History) : Text :=
  h.entries.zipIdx.flatMap fun (c, index) => historyLine index c

/-- Presses buttons by their identifiers, and tells of those that no button has. -/
def pressKeys (s : Session) : List Text → Session × Text
  | [] => (s, [])
  | id :: ids =>
    match Key.ofId? id with
    | some key => pressKeys (s.press key) ids
    | none =>
      let (s, output) := pressKeys s ids
      (s, line (Key.unknownId id) ++ output)

/-- The index that a word spells: digits, after a plus if there is one. -/
def readIndex? (s : Text) : Option Nat :=
  let digits := match s with
    | '+' :: rest => rest
    | _ => s
  if digits.isEmpty || !digits.all Char.isDigit then none else some (Nat.ofDigitChars 10 digits 0)

/-- Replays the calculation whose index is the first word. -/
def replay (s : Session) (words : List Text) : Session × Text :=
  match words.head?.bind readIndex? |>.bind s.replay? with
  | some s => (s, stateLine s)
  | none => (s, line "no such history entry".toList)

/-- Sets the unit of angle that the first word names, or changes it if there is no word. -/
def changeAngle (s : Session) (words : List Text) : Session × Text :=
  match words with
  | [] =>
    let s := s.toggleAngle
    (s, line s.angle.label)
  | name :: _ =>
    match Angle.ofName? name with
    | some angle =>
      let s := s.setAngle angle
      (s, line s.angle.label)
    | none => (s, line (Angle.unknownName name) ++ line s.angle.label)

def commit (s : Session) (expression : Text) : Session × Text :=
  let loaded := s.load expression
  let committed := loaded.commit
  let output := match loaded.outcome with
    | .value _ => committed.input
    | .malformed reason => "Error: ".toList ++ reason
    | .incomplete => "Error: incomplete expression".toList
    | .domain => "Error".toList
  (committed, line output)

/-- What the first word of a line asks for. -/
inductive Command where
  | leave | help | keys | history | replay | clearHistory | angle | theme | memory
deriving DecidableEq

def Command.ofWord? (word : Text) : Option Command :=
  [("exit".toList, leave), ("quit".toList, leave), (":help".toList, help), (":keys".toList, keys),
   (":history".toList, history), (":replay".toList, replay),
   (":clear-history".toList, clearHistory), (":angle".toList, angle), (":theme".toList, theme),
   (":mem".toList, memory)].lookup word

def carryOut (s : Session) (words : List Text) : Command → Reply
  | .leave => ⟨s, [], false⟩
  | .help => ⟨s, help, true⟩
  | .keys =>
    let (s, output) := pressKeys s words
    ⟨s, output ++ stateLine s, true⟩
  | .history => ⟨s, historyLines s.history, true⟩
  | .replay =>
    let (s, output) := replay s words
    ⟨s, output, true⟩
  | .clearHistory => ⟨s.clearHistory, [], true⟩
  | .angle =>
    let (s, output) := changeAngle s words
    ⟨s, output, true⟩
  | .theme => ⟨s.toggleTheme, line s.toggleTheme.theme.label, true⟩
  | .memory => ⟨s, line (Display.text s.memory), true⟩

/-- Handles a line. A blank line does nothing. -/
def handle (s : Session) (input : Text) : Reply :=
  match input.words with
  | [] => ⟨s, [], true⟩
  | word :: words =>
    match Command.ofWord? word with
    | some command => carryOut s words command
    | none =>
      let (s, output) := commit s input.trim
      ⟨s, output, true⟩

def mentionsAngle (input : Text) : Bool :=
  match input.words with
  | [] => false
  | word :: _ => Command.ofWord? word == some .angle

end Console

end Calculator
