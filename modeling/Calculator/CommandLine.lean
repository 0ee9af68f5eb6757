import Calculator.Angle

/-! The words of the command line. Options may stand anywhere before a word of two dashes; all other
words make up an expression. -/

namespace Calculator

/-- Why the program does not start: the words are at fault, or they ask for information only. -/
inductive UsageStop where
  | unknownArgument
  | argumentConflict
  | emptyValue
  | multipleUsage
  | helpRequested
  | versionRequested
deriving DecidableEq

inductive Switch where
  | degrees | radians | noState | state | help | version
deriving DecidableEq

namespace Switch

def ofLetter? : Char → Option Switch
  | 'd' => some degrees
  | 'r' => some radians
  | 's' => some state
  | 'h' => some help
  | 'V' => some version
  | _ => none

def ofName? (name : Text) : Option Switch :=
  [("degrees".toList, degrees), ("radians".toList, radians), ("no-state".toList, noState),
   ("state".toList, state), ("help".toList, help), ("version".toList, version)].lookup name

end Switch

/-- What the words have said so far: the options given, the values of the state option, whether its
value is still to come, whether options have ended, and the words of the expression. The lists are
last first. -/
structure CommandLine where
  switches : List Switch
  statePaths : List Text
  awaitsPath : Bool
  optionsEnded : Bool
  words : List Text

namespace CommandLine

def empty : CommandLine := ⟨[], [], false, false, []⟩

def trimValue (value : Text) : Text := value.dropWhile (· == '=')

/-- Takes in an option. The value of the state option may stand in the same word. -/
def give (c : CommandLine) (switch : Switch) (value : Option Text) : Except UsageStop CommandLine :=
  match switch, value with
  | .help, _ => .error .helpRequested
  | .version, _ => .error .versionRequested
  | .state, some value =>
    .ok { c with
      switches := .state :: c.switches, statePaths := trimValue value :: c.statePaths,
      awaitsPath := false }
  | .state, none => .ok { c with switches := .state :: c.switches, awaitsPath := true }
  | switch, _ => .ok { c with switches := switch :: c.switches, awaitsPath := false }

/-- Takes in a word of letters, each of them an option. What follows the letter of the state option
is its value. -/
def giveLetters (c : CommandLine) : Text → Except UsageStop CommandLine
  | [] => .ok c
  | letter :: rest =>
    match Switch.ofLetter? letter with
    | none => .error .unknownArgument
    | some .state => c.give .state (if rest.isEmpty then none else some rest)
    | some switch => do (← c.give switch none).giveLetters rest

/-- Takes in a long name, with a value after an equals sign if there is one. -/
def giveName (c : CommandLine) (word : Text) : Except UsageStop CommandLine :=
  let name := word.takeWhile (· != '=')
  let value := word.dropWhile (· != '=')
  match Switch.ofName? name with
  | none => .error .unknownArgument
  | some switch => c.give switch (if value.isEmpty then none else some value)

def dropDashes (word : Text) : Text := word.dropWhile (· == '-')

/-- Takes in a word that is no option: the value that the state option awaits, or a word of the
expression. -/
def takeWord (c : CommandLine) (word : Text) : CommandLine :=
  if c.awaitsPath && !c.optionsEnded then
    { c with statePaths := word :: c.statePaths, awaitsPath := false }
  else { c with words := word :: c.words }

def step (c : CommandLine) (word : Text) : Except UsageStop CommandLine :=
  if c.optionsEnded then .ok (c.takeWord word)
  else match word with
    | ['-', '-'] => .ok { c with optionsEnded := true }
    | '-' :: '-' :: _ => c.giveName (dropDashes word)
    | '-' :: _ :: _ => c.giveLetters (dropDashes word)
    | _ => .ok (c.takeWord word)

def has (c : CommandLine) (switch : Switch) : Bool := c.switches.contains switch

/-- Checks that no two options contradict each other, that none is given twice, and that the state
option has its value. -/
def check (c : CommandLine) : Except UsageStop CommandLine :=
  if c.awaitsPath && c.statePaths.isEmpty then .error .emptyValue
  else if (c.has .degrees && c.has .radians) || (c.has .state && c.has .noState) then
    .error .argumentConflict
  else if c.has .state && c.statePaths.isEmpty then .error .emptyValue
  else if c.switches.any fun switch => 1 < c.switches.count switch then .error .multipleUsage
  else .ok c

def read (words : List Text) : Except UsageStop CommandLine := do
  (← words.foldlM step empty).check

def angle? (c : CommandLine) : Option Angle :=
  if c.has .degrees then some .degrees else if c.has .radians then some .radians else none

def statePath? (c : CommandLine) : Option Text := c.statePaths.head?

def expression? (c : CommandLine) : Option Text :=
  if c.words.isEmpty then none else some (Text.joinWith ' ' c.words.reverse)

end CommandLine

end Calculator
