import Calculator.Program
import Calculator.Proofs.SessionSteps
import Calculator.Proofs.SnapshotText

/-! What an override of the unit of angle leaves in the store. The unit that was stored before goes
on being stored until a line starts with the command on the unit of angle. That line may name no
unit: it then changes nothing, and yet makes the override permanent. -/

namespace Calculator

namespace Session

variable (s : Session)

@[simp] theorem angle_typeDigit (c : Char) : (s.typeDigit c).angle = s.angle := by
  unfold typeDigit
  split <;> rfl

@[simp] theorem angle_commit : s.commit.angle = s.angle := by
  unfold commit
  split <;> rfl

@[simp] theorem angle_memoryAdd : s.memoryAdd.angle = s.angle := by
  obtain ⟨x, hMemory⟩ := s.exists_memoryAdd_eq
  rw [hMemory]

@[simp] theorem angle_memorySubtract : s.memorySubtract.angle = s.angle := by
  obtain ⟨x, hMemory⟩ := s.exists_memorySubtract_eq
  rw [hMemory]

@[simp] theorem angle_memoryRecall : s.memoryRecall.angle = s.angle := by
  unfold memoryRecall
  split <;> rfl

/-- No button sets the unit of angle. -/
@[simp] theorem angle_press (key : Key) : (s.press key).angle = s.angle := by
  cases key with
  | digit c => exact s.angle_typeDigit c
  | equals => exact s.angle_commit
  | memoryAdd => exact s.angle_memoryAdd
  | memorySubtract => exact s.angle_memorySubtract
  | memoryRecall => exact s.angle_memoryRecall
  | operator | allClear | delete | toggleSign | function | constant | openParen | closeParen
  | second | memoryClear => rfl

theorem angle_replay? {index : Nat} {next : Session} (h : s.replay? index = some next) :
    next.angle = s.angle := by
  obtain ⟨calculation, -, rfl⟩ := Option.map_eq_some_iff.mp h
  rfl

end Session

namespace Console

variable {input : Text}

/-- The line toggles the unit of angle, or names the one to set. -/
def ChangesAngle (input : Text) : Prop :=
  input.words.head? = some ":angle".toList ∧
    ∀ name ∈ input.words.tail.head?, (Angle.ofName? name).isSome = true

instance : DecidablePred ChangesAngle := fun input =>
  inferInstanceAs (Decidable (_ ∧ ∀ name ∈ input.words.tail.head?, _))

theorem ofWord?_eq_angle_iff {word : Text} :
    Command.ofWord? word = some .angle ↔ word = ":angle".toList := by
  constructor
  · intro h
    obtain ⟨before, after, hTable, -⟩ := List.lookup_eq_some_iff.mp h
    have hMem : (word, Command.angle) ∈ before ++ (word, .angle) :: after := by simp
    rw [← hTable] at hMem
    simpa using hMem
  · rintro rfl
    decide

theorem mentionsAngle_iff :
    mentionsAngle input = true ↔ input.words.head? = some ":angle".toList := by
  unfold mentionsAngle
  cases input.words with
  | nil => simp
  | cons word words =>
    rw [beq_iff_eq, ofWord?_eq_angle_iff]
    simp

theorem ChangesAngle.mentionsAngle (h : ChangesAngle input) : mentionsAngle input = true :=
  mentionsAngle_iff.mpr h.1

theorem angle_pressKeys (s : Session) (ids : List Text) : (pressKeys s ids).1.angle = s.angle := by
  induction ids generalizing s with
  | nil => rfl
  | cons id ids ih =>
    unfold pressKeys
    split
    · exact (ih _).trans (s.angle_press _)
    · exact ih s

theorem angle_replay (s : Session) (words : List Text) : (replay s words).1.angle = s.angle := by
  unfold replay
  split
  · rename_i next hNext
    obtain ⟨index, -, hReplay⟩ := Option.bind_eq_some_iff.mp hNext
    exact s.angle_replay? hReplay
  · rfl

theorem angle_carryOut {command : Command} (h : command ≠ .angle) (s : Session)
    (words : List Text) : (carryOut s words command).session.angle = s.angle := by
  cases command with
  | angle => exact absurd rfl h
  | keys => exact angle_pressKeys s words
  | replay => exact angle_replay s words
  | leave | help | history | clearHistory | theme | memory => rfl

/-- A word that names no unit of angle sets none. -/
theorem angle_changeAngle {words : List Text} {name : Text} (hWord : words.head? = some name)
    (hName : Angle.ofName? name = none) (s : Session) :
    (changeAngle s words).1.angle = s.angle := by
  obtain ⟨rest, rfl⟩ := List.head?_eq_some_iff.mp hWord
  simp only [changeAngle, hName]

/-- Only a line that toggles or sets the unit of angle changes it. -/
theorem angle_handle (h : ¬ ChangesAngle input) (s : Session) :
    (handle s input).session.angle = s.angle := by
  unfold handle
  cases hWords : input.words with
  | nil => rfl
  | cons word words =>
    dsimp only
    cases hCommand : Command.ofWord? word with
    | none => exact (s.load input.trim).angle_commit
    | some command =>
      dsimp only
      by_cases hAngle : command = .angle
      · subst hAngle
        rw [ofWord?_eq_angle_iff] at hCommand
        simp only [ChangesAngle, hWords, List.head?_cons, hCommand, true_and, List.tail_cons,
          not_forall, Option.mem_def, Bool.not_eq_true, Option.isSome_eq_false_iff,
          Option.isNone_iff_eq_none] at h
        obtain ⟨name, hWord, hName⟩ := h
        exact angle_changeAngle hWord hName s
      · exact angle_carryOut hAngle s words

end Console

namespace Run

open Console (ChangesAngle mentionsAngle)

variable {r r' : Run} {store : Store} {snapshot : Snapshot} {lines : List Text}

theorem save_of_saves (h : r.store.Saves) :
    ∃ store, r.save = { r with store := store } ∧ store.Saves ∧
      store.load = .ok (some r.snapshot) := by
  obtain ⟨store, hSave⟩ := h r.snapshot
  exact ⟨store, by rw [save, hSave], Store.saves_of_save hSave, Store.load_of_save hSave⟩

/-- What a line leaves in a store that can be written. -/
theorem handle_of_saves (h : r.store.Saves) (line : Text) :
    (r.handle line).run.store.Saves ∧
      (r.handle line).run.store.load = .ok (some (r.handle line).run.snapshot) := by
  obtain ⟨store, hRun, hSaves, hLoad⟩ := save_of_saves (r := ⟨r.store,
    (Console.handle r.session line).session,
    if mentionsAngle line then none else r.storedAngle⟩) h
  rw [handle, hRun]
  exact ⟨hSaves, hLoad⟩

@[simp] theorem session_save (r : Run) : r.save.session = r.session := by
  unfold save
  split <;> rfl

@[simp] theorem storedAngle_save (r : Run) : r.save.storedAngle = r.storedAngle := by
  unfold save
  split <;> rfl

/-- The lines, at least one, are handled one after the other; only the last one may ask to leave. -/
inductive Handles : Run → List Text → Run → Prop
  | last (r : Run) (line : Text) : Handles r [line] (r.handle line).run
  | next {r r' : Run} {line : Text} {lines : List Text} :
      (r.handle line).goesOn = true → Handles (r.handle line).run lines r' →
        Handles r (line :: lines) r'

namespace Handles

theorem store_interact (h : r.Handles lines r') :
    (r.interact (lines.map some)).store = r'.store := by
  induction h with
  | last r line =>
    rw [List.map_singleton, interact]
    split <;> rfl
  | next hGoesOn _ ih =>
    rw [List.map_cons, interact, if_pos hGoesOn]
    exact ih

/-- The store holds the snapshot of the run after every line. -/
theorem load_store (h : r.Handles lines r') (hSaves : r.store.Saves) :
    r'.store.load = .ok (some r'.snapshot) := by
  induction h with
  | last r line => exact (handle_of_saves hSaves line).2
  | next _ _ ih => exact ih (handle_of_saves hSaves _).1

/-- The stored unit of angle is kept until a command on it. -/
theorem storedAngle (h : r.Handles lines r') :
    r'.storedAngle = if ∃ line ∈ lines, mentionsAngle line then none else r.storedAngle := by
  induction h with
  | last r line => simp [handle]
  | @next r r' line lines _ _ ih =>
    rw [ih]
    by_cases hLine : mentionsAngle line = true
    · simp [handle, hLine]
    · simp [handle, hLine]

theorem angle_session (h : r.Handles lines r') (hLines : ∀ line ∈ lines, ¬ ChangesAngle line) :
    r'.session.angle = r.session.angle := by
  induction h with
  | last r line =>
    rw [handle, session_save]
    exact Console.angle_handle (hLines line List.mem_cons_self) r.session
  | @next r r' line lines _ _ ih =>
    obtain ⟨hLine, hLines⟩ := List.forall_mem_cons.mp hLines
    rw [ih hLines, handle, session_save]
    exact Console.angle_handle hLine r.session

end Handles

theorem start_of_load (override : Angle) (h : store.load = .ok (some snapshot)) :
    start store (some override) =
      ⟨store, (Session.ofSnapshot snapshot).setAngle override, some snapshot.angle⟩ := by
  simp only [start, loadSession, h, Session.ofSnapshot]

/-- Under an override the store keeps the unit of angle that it had, until a line has the command on
the unit of angle; from then on it holds the unit of the session. If no line so far changes the unit
of the session, but one has that command, then the store holds the override. -/
theorem saved_angle_of_override {override : Angle} (hLoad : store.load = .ok (some snapshot))
    (h : (start store (some override)).Handles lines r) :
    ((start store (some override)).interact (lines.map some)).store = r.store ∧
    ∃ saved, r.store.load = .ok (some saved) ∧
      saved.angle =
        (if ∃ line ∈ lines, mentionsAngle line then r.session.angle else snapshot.angle) ∧
      (saved.angle =
          (if ∃ line ∈ lines, ChangesAngle line then r.session.angle else snapshot.angle) ↔
        (∃ line ∈ lines, ChangesAngle line) ∨ (∀ line ∈ lines, ¬ mentionsAngle line) ∨
          override = snapshot.angle) := by
  have hStart := start_of_load override hLoad
  have hSaved := h.load_store (by rw [hStart]; exact Store.saves_of_load hLoad)
  have hStored := h.storedAngle
  rw [hStart] at hStored
  have hAngle : r.snapshot.angle =
      if ∃ line ∈ lines, mentionsAngle line then r.session.angle else snapshot.angle := by
    rw [Run.snapshot, hStored]
    split <;> rfl
  refine ⟨h.store_interact, r.snapshot, hSaved, hAngle, ?_⟩
  rw [hAngle]
  by_cases hChanged : ∃ line ∈ lines, ChangesAngle line
  · obtain ⟨line, hLine, hChanges⟩ := hChanged
    rw [if_pos ⟨line, hLine, hChanges.mentionsAngle⟩, if_pos ⟨line, hLine, hChanges⟩]
    exact iff_of_true rfl (.inl ⟨line, hLine, hChanges⟩)
  rw [if_neg hChanged]
  by_cases hMentioned : ∃ line ∈ lines, mentionsAngle line = true
  · have hKept : r.session.angle = override := by
      rw [h.angle_session (by simpa using hChanged), hStart]
      rfl
    have hSome : ¬ ∀ line ∈ lines, ¬ mentionsAngle line = true := by simpa using hMentioned
    rw [if_pos hMentioned, hKept]
    simp only [hChanged, hSome, false_or]
  · have hNone : ∀ line ∈ lines, ¬ mentionsAngle line = true := by simpa using hMentioned
    rw [if_neg hMentioned]
    exact iff_of_true rfl (.inr (.inl hNone))

/-- A sum and a toggle, on a file of radians under an override with degrees. -/
theorem saved_angle_of_override_until_toggled :
    let stored : Snapshot := ⟨.radians, .light, ['0'], []⟩
    let store : Store := .file (.file (Store.encode stored))
    let r := start store (some .degrees)
    let summed := (r.handle "1+1".toList).run
    let toggled := (summed.handle ":angle".toList).run
    store.load = .ok (some stored) ∧ r.Handles ["1+1".toList, ":angle".toList] toggled ∧
      (∃ saved, summed.store.load = .ok (some saved) ∧ saved.angle = .radians) ∧
      ∃ saved, toggled.store.load = .ok (some saved) ∧ saved.angle = toggled.session.angle := by
  intro stored store r summed toggled
  have hLoad : store.load = .ok (some stored) := Store.loadFile_encode stored
  have hLines : r.Handles ["1+1".toList, ":angle".toList] toggled :=
    .next (by decide +kernel) (.last summed ":angle".toList)
  obtain ⟨-, before, hBefore, hKept, -⟩ :=
    saved_angle_of_override hLoad (.last r "1+1".toList)
  obtain ⟨-, after, hAfter, hSet, -⟩ :=
    saved_angle_of_override hLoad hLines
  rw [if_neg (by decide)] at hKept
  rw [if_pos (by decide)] at hSet
  exact ⟨hLoad, hLines, ⟨before, hBefore, hKept⟩, after, hAfter, hSet⟩

/-- A unit of angle that does not exist is not set, but the override is stored. -/
theorem not_saved_angle_of_unchanged :
    ¬ ∀ (store : Store) (snapshot saved : Snapshot) (override : Angle) (lines : List Text) (r : Run),
      store.load = .ok (some snapshot) → (start store (some override)).Handles lines r →
      (∀ line ∈ lines, ¬ ChangesAngle line) → r.store.load = .ok (some saved) →
        saved.angle = snapshot.angle := by
  intro h
  let stored : Snapshot := ⟨.radians, .light, ['0'], []⟩
  let store : Store := .file (.file (Store.encode stored))
  have hLoad : store.load = .ok (some stored) := Store.loadFile_encode stored
  have hStart := start_of_load .degrees hLoad
  have hRun := Handles.last (start store (some .degrees)) ":angle grad".toList
  have hSaved := hRun.load_store (by rw [hStart]; exact Store.saves_of_load hLoad)
  have hUnchanged : ∀ line ∈ [":angle grad".toList], ¬ ChangesAngle line := by decide
  have hAngle := h store stored _ .degrees _ _ hLoad hRun hUnchanged hSaved
  have hSession := hRun.angle_session hUnchanged
  have hStored := hRun.storedAngle
  rw [if_pos (by decide)] at hStored
  rw [snapshot, hStored] at hAngle
  rw [hStart] at hSession
  cases hSession.symm.trans hAngle

end Run

end Calculator
