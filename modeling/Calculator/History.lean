import Calculator.Text.Basic

/-! The history of committed calculations, newest first and never longer than its limit. -/

namespace Calculator

/-- A committed calculation: what was evaluated and the text of its value. -/
structure Calculation where
  expression : Text
  result : Text
deriving DecidableEq

def historyLimit : Nat := 10

structure History where
  entries : List Calculation
  length_le : entries.length ≤ historyLimit
deriving DecidableEq

namespace History

/-- The newest of the given calculations, as many as are kept. -/
def ofEntries (entries : List Calculation) : History :=
  ⟨entries.take historyLimit, List.length_take_le _ _⟩

def empty : History := ofEntries []

/-- Adds a calculation as the newest; the oldest beyond the limit is forgotten. -/
def record (h : History) (c : Calculation) : History := ofEntries (c :: h.entries)

def get? (h : History) (index : Nat) : Option Calculation := h.entries[index]?

def length (h : History) : Nat := h.entries.length

def isEmpty (h : History) : Bool := h.entries.isEmpty

@[simp] theorem entries_ofEntries (entries : List Calculation) :
    (ofEntries entries).entries = entries.take historyLimit := rfl

@[simp] theorem entries_record (h : History) (c : Calculation) :
    (h.record c).entries = (c :: h.entries).take historyLimit := rfl

theorem ofEntries_entries (h : History) : ofEntries h.entries = h := by
  cases h with
  | mk entries hle => simp [ofEntries, List.take_of_length_le hle]

end History

end Calculator
