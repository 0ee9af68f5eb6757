import Calculator.Program
import Calculator.Proofs.ConsoleSteps
import Calculator.Proofs.SnapshotText
import Calculator.Proofs.StoredSettings

/-! Restarting the program is invisible to a user who presses no buttons. After every line the store
holds all of the session but its buffer, and no line but one that presses buttons depends on the
buffer that it finds. -/

namespace Calculator

theorem Session.ofSnapshot_snapshot {s : Session} (h : s.Reachable) (hSecond : s.second = false) :
    ofSnapshot s.snapshot = s.clear := by
  have hMemory : readMemory s.memory.raw = s.memory := readMemory_raw h.isFinite_memory
  have hHistory : History.ofEntries s.history.entries = s.history := s.history.ofEntries_entries
  simp only [ofSnapshot, snapshot, clear, new, hMemory, hHistory, hSecond]

/-- The result behind something printed before. -/
def RunResult.behind (result : RunResult) (output : Text) : RunResult :=
  { result with output := output ++ result.output }

theorem RunResult.behind_behind (result : RunResult) (first second : Text) :
    (result.behind second).behind first = result.behind (first ++ second) := by
  simp only [behind, List.append_assoc]

namespace Run

open Console (IsOrdinary)

variable {r : Run} {store : Store} {s : Session} {line : Text} {lines : List Text}

theorem interact_cons (h : IsOrdinary line) (r : Run) (rest : List (Option Text)) :
    r.interact (some line :: rest) =
      ((r.handle line).run.interact rest).behind (r.handle line).output := by
  have hGoesOn : (r.handle line).goesOn = true := Console.goesOn_handle h r.session
  rw [interact, if_pos hGoesOn]
  rfl

/-! ### Runs with a fresh buffer -/

/-- The run with a fresh buffer. -/
def clear (r : Run) : Run := { r with session := r.session.clear }

theorem clear_save (r : Run) : r.save.clear = r.clear.save := by
  have hSame : r.clear.store.save r.clear.snapshot = r.store.save r.snapshot := rfl
  cases hSave : r.store.save r.snapshot with
  | ok store =>
    simp only [save, hSame, hSave]
    rfl
  | error e =>
    simp only [save, hSame, hSave]

theorem handle_clear (h : IsOrdinary line) (r : Run) :
    (r.clear.handle line).output = (r.handle line).output ∧
      (r.clear.handle line).run.clear = (r.handle line).run.clear := by
  obtain ⟨hOutput, hSession⟩ := Console.handle_clear h r.session
  refine ⟨hOutput, ?_⟩
  simp only [handle, clear_save]
  simp only [clear, hSession]

/-- The buffer at the start of a run plays no part in it. -/
theorem interact_clear (h : ∀ line ∈ lines, IsOrdinary line) (r : Run) :
    r.clear.interact (lines.map some) = r.interact (lines.map some) := by
  induction lines generalizing r with
  | nil => rfl
  | cons line lines ih =>
    obtain ⟨hLine, hLines⟩ := List.forall_mem_cons.mp h
    obtain ⟨hOutput, hRun⟩ := handle_clear hLine r
    -- The two runs after the line agree only once their buffers are cleared.
    rw [List.map_cons, interact_cons hLine, interact_cons hLine, hOutput, ← ih hLines,
      hRun, ih hLines]

/-! ### Runs whose store is up to date -/

/-- The store holds all of the session but its buffer. -/
structure Synced (r : Run) : Prop where
  reachable : r.session.Reachable
  second : r.session.second = false
  storedAngle : r.storedAngle = none
  saves : r.store.Saves
  loads : loadSession r.store = r.session.clear

theorem synced_start (h : store.Saves) : (start store none).Synced := by
  have hSession : (loadSession store).Reachable ∧ (loadSession store).second = false ∧
      loadSession store = (loadSession store).clear := by
    unfold loadSession
    split
    · exact ⟨.ofSnapshot _, rfl, rfl⟩
    · exact ⟨.new, rfl, rfl⟩
  exact ⟨hSession.1, hSession.2.1, rfl, h, hSession.2.2⟩

theorem synced_save (hStore : store.Saves) (hReachable : s.Reachable) (hSecond : s.second = false) :
    (save ⟨store, s, none⟩).Synced := by
  obtain ⟨saved, hSave⟩ := hStore s.snapshot
  have hRun : save ⟨store, s, none⟩ = ⟨saved, s, none⟩ := by
    have hSnapshot : snapshot ⟨store, s, none⟩ = s.snapshot := rfl
    simp only [save, hSnapshot, hSave]
  have hLoad : loadSession saved = s.clear := by
    rw [loadSession, Store.load_of_save hSave]
    exact Session.ofSnapshot_snapshot hReachable hSecond
  rw [hRun]
  exact ⟨hReachable, hSecond, rfl, Store.saves_of_save hSave, hLoad⟩

theorem Synced.handle (h : r.Synced) (hLine : IsOrdinary line) : (r.handle line).run.Synced := by
  have hAngle : (if Console.mentionsAngle line then none else r.storedAngle) = none := by
    rw [h.storedAngle, ite_self]
  have hSecond : (Console.handle r.session line).session.second = false :=
    (Console.second_handle hLine r.session).trans h.second
  rw [Run.handle]
  dsimp only
  rw [hAngle]
  exact synced_save h.saves (Console.reachable_handle h.reachable line) hSecond

/-- The run after some lines. -/
def after (r : Run) (lines : List Text) : Run := lines.foldl (fun r line => (r.handle line).run) r

theorem Synced.after (h : r.Synced) (hLines : ∀ line ∈ lines, IsOrdinary line) :
    (r.after lines).Synced := by
  induction lines generalizing r with
  | nil => exact h
  | cons line lines ih =>
    obtain ⟨hLine, hLines⟩ := List.forall_mem_cons.mp hLines
    exact ih (h.handle hLine) hLines

theorem interact_append (h : ∀ line ∈ lines, IsOrdinary line) (r : Run)
    (rest : List (Option Text)) :
    r.interact (lines.map some ++ rest) =
      ((r.after lines).interact rest).behind (r.interact (lines.map some)).output := by
  induction lines generalizing r with
  | nil => rfl
  | cons line lines ih =>
    obtain ⟨hLine, hLines⟩ := List.forall_mem_cons.mp h
    rw [List.map_cons, List.cons_append, interact_cons hLine, ih hLines, interact_cons hLine,
      RunResult.behind_behind]
    rfl

/-- A restart on the store that a run leaves goes on like the run. -/
theorem Synced.interact_restarted (h : r.Synced) (hLines : ∀ line ∈ lines, IsOrdinary line) :
    (start r.store none).interact (lines.map some) = r.interact (lines.map some) := by
  have hStart : start r.store none = r.clear := by
    rw [start, h.loads, clear, h.storedAngle]
  rw [hStart, interact_clear hLines]

end Run

/-- A run on lines that press no buttons may be split in two at any line: the first one ends without
an error, and both together print the same and leave the same store as the whole. -/
theorem CommandLine.run_restarted (c : CommandLine) (hAngle : c.angle? = none)
    (hLines : c.expression? = none) (store : Store) (hSaves : store.Saves)
    (first second : List Text) (hOrdinary : ∀ line ∈ first ++ second, Console.IsOrdinary line) :
    let before := c.run store (first.map some)
    let after := c.run before.store (second.map some)
    before.exitCode = 0 ∧ before.error = [] ∧
      c.run store ((first ++ second).map some) =
        { after with output := before.output ++ after.output } := by
  obtain ⟨hFirst, hSecond⟩ := List.forall_mem_append.mp hOrdinary
  have hRun (store : Store) (input : List (Option Text)) :
      c.run store input = (Run.start store none).interact input := by
    simp only [run, hAngle, hLines]
  simp only [hRun]
  have hSynced : (Run.start store none).Synced := Run.synced_start hSaves
  generalize Run.start store none = r at hSynced
  have hBefore : r.interact (first.map some) =
      ⟨0, (r.interact (first.map some)).output, [], (r.after first).store⟩ := by
    have hEnd := Run.interact_append hFirst r []
    rwa [List.append_nil, RunResult.behind, Run.interact, List.append_nil] at hEnd
  have hStore : (r.interact (first.map some)).store = (r.after first).store := by rw [hBefore]
  refine ⟨by rw [hBefore], by rw [hBefore], ?_⟩
  rw [hStore, (hSynced.after hFirst).interact_restarted hSecond, List.map_append,
    Run.interact_append hFirst]
  rfl

/-- A sum before the restart and the history after it, on a file that spells no snapshot. -/
theorem CommandLine.run_restarted_on_unreadable :
    let store : Store := .file (.file "oops".toUTF8)
    let before := empty.run store (["2+3".toList].map some)
    let after := empty.run before.store ([":history".toList].map some)
    let whole := empty.run store ((["2+3".toList] ++ [":history".toList]).map some)
    store.load = .error .unreadable ∧ store.Saves ∧ before.exitCode = 0 ∧
      before.output = "5\n".toList ∧ whole.output = "5\n 0: 2+3 = 5\n".toList ∧
      whole = { after with output := before.output ++ after.output } := by
  have hSaves : (Store.file (.file "oops".toUTF8)).Saves := fun _ => ⟨_, rfl⟩
  obtain ⟨hExit, -, hWhole⟩ := run_restarted empty rfl rfl _ hSaves ["2+3".toList]
    [":history".toList] (by decide +kernel)
  exact ⟨by decide +kernel, hSaves, hExit, by decide +kernel, by decide +kernel, hWhole⟩

end Calculator
