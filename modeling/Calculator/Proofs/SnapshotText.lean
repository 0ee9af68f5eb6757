import Calculator.Proofs.JsonText
import Calculator.Store

/-! A snapshot is read back from the text that is written of it, whatever characters its texts have,
and so it is loaded from every store that has saved it. -/

namespace Calculator

theorem Angle.ofCode?_code (angle : Angle) : ofCode? angle.code = some angle := by
  cases angle <;> decide

theorem Theme.ofCode?_code (theme : Theme) : ofCode? theme.code = some theme := by
  cases theme <;> decide

namespace Snapshot

open Json (Spells spells_quote spells_writeArray spells_writeObject)

def calculationJson (c : Calculation) : Json :=
  .object [(some expressionName, .string (some c.expression)),
    (some resultName, .string (some c.result))]

/-- The value that a snapshot is written as. -/
def json (s : Snapshot) : Json :=
  .object [(some angleName, .string (some s.angle.code)),
    (some themeName, .string (some s.theme.code)), (some memoryName, .string (some s.memory)),
    (some historyName, .array (s.history.map calculationJson))]

theorem spells_writeCalculation (indent : ℕ) (c : Calculation) :
    Spells (writeCalculation indent c) (calculationJson c) :=
  spells_writeObject (.cons ⟨rfl, spells_quote _⟩ (.cons ⟨rfl, spells_quote _⟩ .nil)) indent

theorem spells_write (s : Snapshot) : Spells s.write s.json := by
  have hHistory : List.Forall₂ Spells (s.history.map (writeCalculation 4))
      (s.history.map calculationJson) := by
    apply List.forall₂_map_left_iff.mpr
    apply List.forall₂_map_right_iff.mpr
    apply List.forall₂_same.mpr
    intro c _
    exact spells_writeCalculation 4 c
  apply spells_writeObject
  exact .cons ⟨rfl, spells_quote _⟩ (.cons ⟨rfl, spells_quote _⟩ (.cons ⟨rfl, spells_quote _⟩
    (.cons ⟨rfl, spells_writeArray hHistory 2⟩ .nil)))

theorem readCalculation?_json (c : Calculation) :
    readCalculation? (calculationJson c) = some c := by
  have hExpression : expressionName ≠ resultName := by decide
  simp [calculationJson, readCalculation?, Json.membersNamed, hExpression, hExpression.symm,
    readRequired?, Json.text?]

theorem readHistory?_json (history : List Calculation) :
    readHistory? (.array (history.map calculationJson)) = some history := by
  rw [readHistory?]
  induction history with
  | nil => rfl
  | cons c history ih =>
    rw [List.map_cons, List.mapM_cons, readCalculation?_json, ih]
    rfl

theorem ofJson?_json (s : Snapshot) : ofJson? s.json = some s := by
  have hValues : ofValues? [.string (some s.angle.code)] [.string (some s.theme.code)]
      [.string (some s.memory)] [.array (s.history.map calculationJson)] = some s := by
    simp only [ofValues?, readOptional?, readAngle?, readTheme?, choice?, Json.text?, bind,
      Option.bind_some, Angle.ofCode?_code, Theme.ofCode?_code, readHistory?_json, pure]
  rw [json, ofJson?, if_pos (by simp)]
  exact hValues

/-- The text of a snapshot is read as the snapshot. -/
theorem read?_write (s : Snapshot) : read? s.write = some s := by
  rw [read?, Json.parse?_of_spells s.spells_write]
  exact s.ofJson?_json

end Snapshot

namespace Store

variable {store saved : Store} {s : Snapshot}

theorem fromUTF8?_toUTF8 (s : String) : String.fromUTF8? s.toUTF8 = some s := by
  unfold String.fromUTF8?
  split
  · rfl
  · rename_i hInvalid
    exact absurd s.isValidUTF8 hInvalid

theorem loadFile_encode (s : Snapshot) : loadFile (.file (encode s)) = .ok (some s) := by
  simp only [loadFile, encode, fromUTF8?_toUTF8, String.toList_ofList, Snapshot.read?_write]

/-- What a store has saved is what it loads. -/
theorem load_of_save (h : store.save s = .ok saved) : saved.load = .ok (some s) := by
  unfold save at h
  split at h
  · cases h
  · cases h
  · cases h
    exact loadFile_encode s
  · cases h
    rfl

/-- The store saves everything. -/
def Saves (store : Store) : Prop := ∀ s, ∃ saved, store.save s = .ok saved

theorem saves_of_save (h : store.save s = .ok saved) : saved.Saves := by
  unfold save at h
  split at h
  · cases h
  · cases h
  · cases h
    exact fun _ => ⟨_, rfl⟩
  · cases h
    exact fun _ => ⟨_, rfl⟩

/-- A store with a snapshot in it can be written. -/
theorem saves_of_load (h : store.load = .ok (some s)) : store.Saves := by
  cases store with
  | memory saved => exact fun _ => ⟨_, rfl⟩
  | file place =>
    cases place with
    | unreachable | vacant | directory => cases h
    | file content => exact fun _ => ⟨_, rfl⟩

end Store

end Calculator
