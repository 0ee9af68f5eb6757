import Calculator.Proofs.Scanning
import Calculator.Proofs.SessionSteps
import Calculator.Proofs.Shortest

/-! What is stored of a session is all of its settings. The memory register of every session that
can be reached is finite, its decimal text reads back as the same number, and the history is no
longer than what is kept of a stored one. -/

namespace Calculator

/-! ### The text of a finite number -/

theorem dropWhile_of_headFails {kind : Char → Bool} {s : Text} (h : HeadFails kind s) :
    s.dropWhile kind = s := by
  cases s with
  | nil => rfl
  | cons c s =>
    rw [headFails_cons] at h
    simp [h]

theorem trim_of_forall {s : Text} (h : ∀ c ∈ s, isBlank c = false) : s.trim = s := by
  have hFront : HeadFails isBlank s := fun c hc => h c (List.mem_of_head? hc)
  have hBack : HeadFails isBlank s.reverse := by
    intro c hc
    exact h c (List.mem_reverse.mp (List.mem_of_head? hc))
  rw [Text.trim, dropWhile_of_headFails hFront, Text.trimEnd, dropWhile_of_headFails hBack,
    List.reverse_reverse]

namespace Numeral

theorem isDigit_or_eq_point_of_mem_plain {d : Decimal} {c : Char} (h : c ∈ d.plain) :
    c.isDigit = true ∨ c = '.' := by
  obtain ⟨coefficient, exponent⟩ := d
  cases exponent with
  | ofNat e => exact .inl (Nat.isDigit_of_mem_toDigits (by decide) (by decide) h)
  | negSucc e =>
    simp only [Decimal.plain, List.mem_append, List.mem_cons] at h
    rcases h with hWhole | rfl | hFraction
    · exact .inl (Nat.isDigit_of_mem_toDigits (by decide) (by decide) hWhole)
    · exact .inr rfl
    · exact .inl (isDigit_of_mem_leftpad hFraction)

theorem isBlank_of_mem_signed_plain {negative : Bool} {d : Decimal} {c : Char}
    (h : c ∈ Binary64.signed negative d.plain) : isBlank c = false := by
  have hPlain : c ∈ d.plain → isBlank c = false := by
    intro hMem
    rcases isDigit_or_eq_point_of_mem_plain hMem with hDigit | rfl
    · exact Token.isBlank_of_isDigit hDigit
    · decide
  cases negative with
  | false => exact hPlain h
  | true =>
    rcases List.mem_cons.mp h with rfl | hMem
    · decide
    · exact hPlain hMem

theorem readSign_signed_plain (negative : Bool) (d : Decimal) :
    readSign (Binary64.signed negative d.plain) = (negative, d.plain) := by
  cases negative with
  | true => rfl
  | false =>
    obtain ⟨c, s, hText, hDigit⟩ := exists_plain_eq_cons d
    simp only [Binary64.signed, hText, Bool.false_eq_true, if_false]
    exact readSign_of_isDigit hDigit

/-- The plain text of a decimal, with its sign, spells the number nearest to the decimal. -/
theorem value?_signed_plain (negative : Bool) (d : Decimal) :
    value? (Binary64.signed negative d.plain) = some (d.toBinary64 negative) := by
  obtain ⟨d', hRead, hValue⟩ := exists_read?_plain isStoredMark d
    (headFails_nil _) (headFails_nil _) (headFails_nil _)
  rw [List.append_nil] at hRead
  simp only [value?, readSign_signed_plain, hRead, Decimal.toBinary64_congr negative hValue]

end Numeral

namespace Session

theorem readMemory_raw {x : Binary64} (h : x.isFinite = true) : readMemory x.raw = x := by
  cases x with
  | nan signaling => simp [Binary64.isFinite] at h
  | infinite negative => simp [Binary64.isFinite] at h
  | finite negative m =>
    have hTrim : (Binary64.signed negative m.shortest.plain).trim =
        Binary64.signed negative m.shortest.plain :=
      trim_of_forall fun _ hc => Numeral.isBlank_of_mem_signed_plain hc
    have hNumber := Decimal.toBinary64_of_nearest? negative m.nearest?_shortest
    simp only [readMemory, Binary64.raw, hTrim, Numeral.value?_signed_plain, hNumber,
      Binary64.isFinite, if_true]

/-! ### Sessions -/

variable {s s' : Session}

theorem isFinite_readMemory (text : Text) : (readMemory text).isFinite = true := by
  unfold readMemory
  split
  · split
    · assumption
    · rfl
  · rfl

theorem isFinite_memory_of_step (h : s.memory.isFinite = true) (hStep : Step s s') :
    s'.memory.isFinite = true := by
  cases hStep with
  | setMemory hFinite => exact hFinite
  | restore => exact isFinite_readMemory _
  | commit =>
    unfold commit
    split
    · exact h
    · exact h
  | _ => exact h

theorem Reachable.isFinite_memory (h : Reachable s) : s.memory.isFinite = true :=
  h.invariant (P := fun s => s.memory.isFinite = true) rfl (fun _ => isFinite_readMemory _)
    isFinite_memory_of_step

/-- A session and the one restored from what it stores have the same settings, down to the bits of
the memory register, and store the same. -/
theorem settings_of_restored (h : Reachable s) :
    s.memory.isFinite = true ∧
      let restored := ofSnapshot s.snapshot
      restored.memory = s.memory ∧ restored.angle = s.angle ∧ restored.theme = s.theme ∧
        restored.history = s.history ∧ restored.snapshot = s.snapshot := by
  have hFinite := h.isFinite_memory
  have hMemory : readMemory s.memory.raw = s.memory := readMemory_raw hFinite
  have hHistory : History.ofEntries s.history.entries = s.history := s.history.ofEntries_entries
  refine ⟨hFinite, hMemory, rfl, rfl, hHistory, ?_⟩
  simp only [snapshot, ofSnapshot, hMemory, hHistory]

/-- A negative zero in the memory, and twelve stored calculations, of which ten are kept. -/
theorem settings_of_restored_negative_zero :
    let s := ofSnapshot ⟨.degrees, .dark, " -0.0e5 ".toList, List.replicate 12 ⟨['1'], ['1']⟩⟩
    Reachable s ∧ s.memory = .finite true .zero ∧
      (ofSnapshot s.snapshot).memory = .finite true .zero ∧
      (ofSnapshot s.snapshot).history.length = 10 := by
  intro s
  have hReachable : Reachable s := .ofSnapshot _
  have hZero : s.memory = .finite true .zero := by decide +kernel
  obtain ⟨-, hMemory, -, -, hHistory, -⟩ := settings_of_restored hReachable
  exact ⟨hReachable, hZero, hMemory.trans hZero, by rw [hHistory]; rfl⟩

end Session

end Calculator
