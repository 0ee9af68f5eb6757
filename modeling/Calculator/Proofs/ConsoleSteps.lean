import Calculator.Console
import Calculator.Proofs.SessionSteps

/-! What a line does to a session. Every line leads to a session that operations can reach. A line
that presses no buttons depends only on the settings of the session, not on its buffer, and the
settings after it are the same for every buffer. -/

namespace Calculator.Console

open Session (Reachable)

variable {s : Session} {input word : Text} {words : List Text} {command : Command}

/-! ### Reachable sessions -/

theorem reachable_pressKeys (h : Reachable s) (ids : List Text) :
    Reachable (pressKeys s ids).1 := by
  induction ids generalizing s with
  | nil => exact h
  | cons id ids ih =>
    unfold pressKeys
    split
    · exact ih (h.press _)
    · exact ih h

theorem reachable_replay (h : Reachable s) (words : List Text) : Reachable (replay s words).1 := by
  unfold replay
  split
  · rename_i next hNext
    obtain ⟨index, -, hReplay⟩ := Option.bind_eq_some_iff.mp hNext
    have hReachable := h.perform (.replay index)
    rwa [Session.perform, hReplay] at hReachable
  · exact h

theorem reachable_changeAngle (h : Reachable s) (words : List Text) :
    Reachable (changeAngle s words).1 := by
  unfold changeAngle
  split
  · exact h.perform .toggleAngle
  · split
    · exact h.perform (.setAngle _)
    · exact h

theorem reachable_carryOut (h : Reachable s) (words : List Text) (command : Command) :
    Reachable (carryOut s words command).session := by
  cases command with
  | keys => exact reachable_pressKeys h words
  | replay => exact reachable_replay h words
  | clearHistory => exact h.perform .clearHistory
  | angle => exact reachable_changeAngle h words
  | theme => exact h.perform .toggleTheme
  | leave | help | history | memory => exact h

/-- A line leads from a session that can be reached to another one. -/
theorem reachable_handle (h : Reachable s) (input : Text) : Reachable (handle s input).session := by
  unfold handle
  split
  · exact h
  · split
    · exact reachable_carryOut h _ _
    · exact (h.load _).commit

/-! ### Lines that press no buttons -/

/-- The line neither presses buttons nor asks to leave. -/
def IsOrdinary (input : Text) : Prop :=
  ∀ word ∈ input.words.head?,
    word ≠ ":keys".toList ∧ word ≠ "exit".toList ∧ word ≠ "quit".toList

instance : DecidablePred IsOrdinary := fun input =>
  inferInstanceAs (Decidable (∀ word ∈ input.words.head?, _))

/-- The command neither presses buttons nor asks to leave. -/
def Command.IsOrdinary (command : Command) : Prop := command ≠ .keys ∧ command ≠ .leave

theorem isOrdinary_of_ofWord? (h : IsOrdinary input) (hWords : input.words = word :: words)
    (hCommand : Command.ofWord? word = some command) : command.IsOrdinary := by
  obtain ⟨hKeys, hExit, hQuit⟩ := h word (by rw [hWords]; rfl)
  obtain ⟨before, after, hTable, -⟩ := List.lookup_eq_some_iff.mp hCommand
  have hMem : (word, command) ∈ before ++ (word, command) :: after := by simp
  rw [← hTable] at hMem
  constructor
  · rintro rfl
    exact hKeys (by simpa using hMem)
  · rintro rfl
    simp only [List.mem_cons, Prod.mk.injEq, reduceCtorEq, and_false, and_true, or_false,
      List.not_mem_nil] at hMem
    exact hMem.elim hExit hQuit

/-- An ordinary line is blank, a command or an expression. -/
theorem handle_cases (h : IsOrdinary input) :
    (∀ s, handle s input = ⟨s, [], true⟩) ∨
    (∃ words command, command.IsOrdinary ∧ ∀ s, handle s input = carryOut s words command) ∨
    ∀ s, handle s input = ⟨(commit s input.trim).1, (commit s input.trim).2, true⟩ := by
  cases hWords : input.words with
  | nil => exact .inl fun s => by rw [handle, hWords]
  | cons word words =>
    cases hCommand : Command.ofWord? word with
    | none => exact .inr (.inr fun s => by simp only [handle, hWords, hCommand])
    | some command =>
      exact .inr (.inl ⟨words, command, isOrdinary_of_ofWord? h hWords hCommand,
        fun s => by simp only [handle, hWords, hCommand]⟩)

/-- A command that presses no buttons does and prints the same whatever is in the buffer. -/
theorem carryOut_clear (h : command.IsOrdinary) (s : Session) (words : List Text) :
    (carryOut s.clear words command).output = (carryOut s words command).output ∧
      (carryOut s.clear words command).session.clear =
        (carryOut s words command).session.clear := by
  cases command with
  | keys => exact absurd rfl h.1
  | leave => exact absurd rfl h.2
  | angle =>
    simp only [carryOut, changeAngle]
    split
    · exact ⟨rfl, rfl⟩
    · split <;> exact ⟨rfl, rfl⟩
  | replay =>
    have hReplay : s.clear.replay? = s.replay? := rfl
    simp only [carryOut, replay, hReplay]
    cases (words.head?.bind readIndex?).bind s.replay? with
    | none => exact ⟨rfl, rfl⟩
    | some next => exact ⟨rfl, rfl⟩
  | help | history | clearHistory | theme | memory => exact ⟨rfl, rfl⟩

theorem handle_clear (h : IsOrdinary input) (s : Session) :
    (handle s.clear input).output = (handle s input).output ∧
      (handle s.clear input).session.clear = (handle s input).session.clear := by
  rcases handle_cases h with hBlank | ⟨words, command, hOrdinary, hCommand⟩ | hExpression
  · rw [hBlank, hBlank]
    exact ⟨rfl, rfl⟩
  · rw [hCommand, hCommand]
    exact carryOut_clear hOrdinary s words
  · rw [hExpression, hExpression]
    exact ⟨rfl, rfl⟩

theorem goesOn_carryOut (h : command.IsOrdinary) (s : Session) (words : List Text) :
    (carryOut s words command).goesOn = true := by
  cases command with
  | leave => exact absurd rfl h.2
  | _ => rfl

theorem goesOn_handle (h : IsOrdinary input) (s : Session) : (handle s input).goesOn = true := by
  rcases handle_cases h with hBlank | ⟨words, command, hOrdinary, hCommand⟩ | hExpression
  · rw [hBlank]
  · rw [hCommand]
    exact goesOn_carryOut hOrdinary s words
  · rw [hExpression]

theorem second_replay? {index : Nat} {next : Session} (h : s.replay? index = some next) :
    next.second = s.second := by
  obtain ⟨calculation, -, rfl⟩ := Option.map_eq_some_iff.mp h
  rfl

theorem second_carryOut (h : command.IsOrdinary) (s : Session) (words : List Text) :
    (carryOut s words command).session.second = s.second := by
  cases command with
  | keys => exact absurd rfl h.1
  | angle =>
    simp only [carryOut, changeAngle]
    split
    · rfl
    · split <;> rfl
  | replay =>
    simp only [carryOut, replay]
    split
    · rename_i hNext
      obtain ⟨index, -, hReplay⟩ := Option.bind_eq_some_iff.mp hNext
      exact second_replay? hReplay
    · rfl
  | leave | help | history | clearHistory | theme | memory => rfl

theorem second_handle (h : IsOrdinary input) (s : Session) :
    (handle s input).session.second = s.second := by
  rcases handle_cases h with hBlank | ⟨words, command, hOrdinary, hCommand⟩ | hExpression
  · rw [hBlank]
  · rw [hCommand]
    exact second_carryOut hOrdinary s words
  · rw [hExpression]
    exact Session.second_commit _

end Calculator.Console
