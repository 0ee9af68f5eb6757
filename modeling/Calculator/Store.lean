import Calculator.Snapshot.Format

/-! Where snapshots are kept: in a file, or in memory only. -/

namespace Calculator

-- Byte arrays are compared as in the core library, whichever others an importing module knows.
attribute [local instance (high)] ByteArray.instDecidableEq

/-- What is at the path of a file: a place that cannot be reached, nothing yet, a directory, or a
file with its bytes. -/
inductive Place where
  | unreachable
  | vacant
  | directory
  | file (content : ByteArray)
deriving DecidableEq

/-- Why a store cannot be used: the file is not accessible, or it spells no snapshot. -/
inductive StoreError where
  | inaccessible
  | unreadable
deriving DecidableEq

inductive Store where
  | file (place : Place)
  | memory (saved : Option Snapshot)
deriving DecidableEq

namespace Store

def loadFile : Place → Except StoreError (Option Snapshot)
  | .unreachable => .error .inaccessible
  | .vacant => .ok none
  | .directory => .error .inaccessible
  | .file content =>
    match String.fromUTF8? content with
    | none => .error .inaccessible
    | some s =>
      match Snapshot.read? s.toList with
      | some snapshot => .ok (some snapshot)
      | none => .error .unreadable

def load : Store → Except StoreError (Option Snapshot)
  | file place => loadFile place
  | memory saved => .ok saved

def encode (s : Snapshot) : ByteArray := (String.ofList s.write).toUTF8

/-- The store with a snapshot in place of what it held. -/
def save (store : Store) (s : Snapshot) : Except StoreError Store :=
  match store with
  | file .unreachable | file .directory => .error .inaccessible
  | file _ => .ok (file (.file (encode s)))
  | memory _ => .ok (memory (some s))

end Store

end Calculator
