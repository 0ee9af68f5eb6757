import Calculator.FileTree

/-! The command-line program: reads its arguments, its state file and its input, and prints. -/

namespace Calculator

/-- The path of the state file: the one asked for, or the usual name in the home directory. -/
def stateFile (c : CommandLine) : IO String := do
  match c.statePath? with
  | some path => return String.ofList path
  | none =>
    let name := String.ofList stateFileName
    match ← IO.getEnv "HOME" with
    | some home => return if home.isEmpty then name else home ++ "/" ++ name
    | none => return name

def lookAt (path : String) : IO Place := do
  try return .file (← IO.FS.readBinFile path)
  catch
    | .noFileOrDirectory .. => return .vacant
    | _ => return .unreachable

/-- Writes the state file, unless it cannot be written. -/
def writeState (path : Option String) (store : Store) : IO Unit := do
  match path, store with
  | some path, .file (.file content) =>
    try IO.FS.writeBinFile path content catch _ => pure ()
  | _, _ => pure ()

/-- Reads lines from standard input and handles each one as it comes. -/
partial def converse (path : Option String) (r : Run) : IO UInt32 := do
  let stdin ← IO.getStdin
  let stdout ← IO.getStdout
  let rec readLine (line : ByteArray) : IO ByteArray := do
    let next ← stdin.read 1
    if next.isEmpty || next == ⟨#[10]⟩ then return line ++ next else readLine (line ++ next)
  let line ← readLine .empty
  match readLines line.toList with
  | [] => return 0
  | none :: _ =>
    let result := r.interact [none]
    IO.eprintln (String.ofList result.error)
    return 1
  | some input :: _ =>
    let reply := r.handle input
    stdout.putStr (String.ofList reply.output)
    stdout.flush
    writeState path reply.run.store
    if reply.goesOn then converse path reply.run else return 0

def usage : String := "usage: livecalc [-d | -r] [-s FILE | --no-state] [--] [EXPRESSION]"

def version : String := "livecalc 0.1.0"

end Calculator

open Calculator in
def main (args : List String) : IO UInt32 := do
  match CommandLine.read (args.map String.toList) with
  | .error .helpRequested => IO.println usage; return 0
  | .error .versionRequested => IO.println version; return 0
  | .error _ => IO.eprintln usage; return 1
  | .ok c =>
    let path ← if c.has .noState then pure none else some <$> stateFile c
    let store ← match path with
      | some path => Store.file <$> lookAt path
      | none => pure (.memory none)
    match c.expression? with
    | some expression =>
      let result := (Run.start store c.angle?).evaluateOnce expression
      IO.print (String.ofList result.output)
      if result.exitCode ≠ 0 then IO.eprintln (String.ofList result.error)
      return UInt32.ofNat result.exitCode
    | none => converse path (Run.start store c.angle?)
