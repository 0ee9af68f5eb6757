import Calculator.Program
import Calculator.Text.Lines

/-! A directory tree, paths in it, and the whole effect of the program on it. -/

namespace Calculator

abbrev Path := List Text

/-- A tree of directories and files. The directories above a file are there with it. -/
structure FileTree where
  directories : List Path
  files : List (Path × ByteArray)

namespace FileTree

def isDirectory (t : FileTree) (path : Path) : Bool :=
  path.isEmpty || t.directories.any path.isPrefixOf ||
    t.files.any fun f => path.isPrefixOf f.1 && path.length < f.1.length

/-- What is at a path below a directory. -/
def placeAt (t : FileTree) (path : Path) : Place :=
  if t.isDirectory path then .directory
  else match t.files.lookup path with
    | some content => .file content
    | none => if t.isDirectory path.dropLast then .vacant else .unreachable

def put (t : FileTree) (path : Path) (content : ByteArray) : FileTree :=
  if (t.files.lookup path).isSome then
    { t with files := t.files.map fun f => if f.1 = path then (path, content) else f }
  else { t with files := t.files ++ [(path, content)] }

def names (path : Text) : List Text := path.splitOn '/'

/-- Follows names from a directory. A dot stays, two dots go up, and all that is passed through has
to be a directory. An empty name, as after a slash at the end, stays like a dot. Nothing above the
root can be reached. -/
def follow? (t : FileTree) : Path → List Text → Option Path
  | path, [] => some path
  | path, name :: rest =>
    if !t.isDirectory path then none
    else if name = [] ∨ name = ['.'] then follow? t path rest
    else if name = ['.', '.'] then
      if path.isEmpty then none else follow? t path.dropLast rest
    else follow? t (path ++ [name]) rest

/-- The path that a text means in a directory, if it can be reached. An absolute path lies outside
the tree, and an empty one means nothing. -/
def resolve? (t : FileTree) (directory : Path) (path : Text) : Option Path :=
  match path with
  | [] => none
  | '/' :: _ => none
  | _ => t.follow? directory (names path)

def find (t : FileTree) (directory : Path) (path : Text) : Place :=
  match t.resolve? directory path with
  | none => .unreachable
  | some found => t.placeAt found

end FileTree

def stateFileName : Text := ".livecalc.json".toList

/-- Where the program runs: its working directory, and its home directory if it has one. -/
structure Surroundings where
  tree : FileTree
  work : Path
  home : Option Path

/-- Runs the program in its surroundings, and gives the tree that it leaves. -/
def CommandLine.runIn (c : CommandLine) (around : Surroundings) (input : List UInt8) :
    RunResult × FileTree :=
  let lines := readLines input
  if c.has .noState then (c.run (.memory none) lines, around.tree)
  else
    let (directory, name) := match c.statePath? with
      | some path => (around.work, path)
      | none => (around.home.getD around.work, stateFileName)
    let result := c.run (.file (around.tree.find directory name)) lines
    match result.store, around.tree.resolve? directory name with
    | .file (.file content), some path => (result, around.tree.put path content)
    | _, _ => (result, around.tree)

end Calculator
