import Calculator.CommandLine
import Calculator.Console
import Calculator.Store

/-! The program as a function of its store and its input: one expression from the command line, or
lines of input after each of which the session is saved. -/

namespace Calculator

/-- A run in progress. While an option overrides the unit of angle, `storedAngle` holds the unit
that goes on being stored. -/
structure Run where
  store : Store
  session : Session
  storedAngle : Option Angle

/-- What a run leaves behind: its exit code, what it printed, the error it reported, and its
store. -/
structure RunResult where
  exitCode : Nat
  output : Text
  error : Text
  store : Store

namespace Run

/-- The session in a store; a new one if there is none that can be read. -/
def loadSession (store : Store) : Session :=
  match store.load with
  | .ok (some snapshot) => .ofSnapshot snapshot
  | _ => .new

/-- Starts a run on a store, with a unit of angle for this run only if one is asked for. -/
def start (store : Store) (override : Option Angle) : Run :=
  let session := loadSession store
  match override with
  | some angle => ⟨store, session.setAngle angle, some session.angle⟩
  | none => ⟨store, session, none⟩

def snapshot (r : Run) : Snapshot :=
  let s := r.session.snapshot
  { s with angle := r.storedAngle.getD s.angle }

/-- Saves the session. A store that cannot be written is left as it is. -/
def save (r : Run) : Run :=
  match r.store.save r.snapshot with
  | .ok store => { r with store := store }
  | .error _ => r

/-- What comes of a line: the run after it, what is printed, and whether to go on. -/
structure Reply where
  run : Run
  output : Text
  goesOn : Bool

/-- Handles a line and saves the session. A command on the unit of angle ends the override. -/
def handle (r : Run) (input : Text) : Reply :=
  let reply := Console.handle r.session input
  let storedAngle := if Console.mentionsAngle input then none else r.storedAngle
  ⟨save ⟨r.store, reply.session, storedAngle⟩, reply.output, reply.goesOn⟩

def report (message : Text) : Text := "livecalc: ".toList ++ message

/-- Handles lines until one asks to leave or is no text. -/
def interact (r : Run) : List (Option Text) → RunResult
  | [] => ⟨0, [], [], r.store⟩
  | none :: _ => ⟨1, [], report "stream did not contain valid UTF-8".toList, r.store⟩
  | some input :: rest =>
    let reply := r.handle input
    if reply.goesOn then
      let result := interact reply.run rest
      { result with output := reply.output ++ result.output }
    else ⟨0, reply.output, [], reply.run.store⟩

def evaluateOnce (r : Run) (expression : Text) : RunResult :=
  match evalText r.session.angle expression with
  | .error e => ⟨1, [], report e.message, r.store⟩
  | .ok x =>
    if x.isFinite then ⟨0, Display.text x ++ ['\n'], [], r.store⟩
    else ⟨1, [], report (expression ++ " has no finite value".toList), r.store⟩

end Run

/-- Runs the program with a command line on a store. Without an expression it reads lines. -/
def CommandLine.run (c : CommandLine) (store : Store) (input : List (Option Text)) : RunResult :=
  let r := Run.start store c.angle?
  match c.expression? with
  | some expression => r.evaluateOnce expression
  | none => r.interact input

end Calculator
