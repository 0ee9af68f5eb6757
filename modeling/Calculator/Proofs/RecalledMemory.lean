import Calculator.Proofs.RoundedValue
import Calculator.Proofs.TypedOperand

/-! Recalling the memory register. The text that is typed for the register spells its number to the
last bit, so a cleared buffer into which it is recalled has that number as its value. Taking it from
the register leaves nothing, and adding it to the register doubles the register where the double
does not overflow. -/

namespace Calculator

namespace Binary64

/-! ### A number and itself -/

theorem rounded_zero (negative : Bool) : rounded negative 0 1 = finite negative .zero := by
  have hRank : nearestRank 0 1 = 0 := by decide
  rw [rounded_eq_ofRank, hRank]
  rfl

theorem exists_ofNat_two :
    ∃ m : Magnitude, ofNat 2 = finite false m ∧ m.rank ≠ 0 ∧ m.units = 2 * unitsPerOne :=
  ⟨⟨0x4000000000000000, by decide⟩, by decide +kernel, by decide, by decide +kernel⟩

/-- A quotient is rounded by its value, whatever the terms it is written in. -/
theorem rounded_mul_mul (negative : Bool) (numerator : Nat) {denominator factor : Nat}
    (hDenominator : 0 < denominator) (hFactor : 0 < factor) :
    rounded negative (numerator * factor) (denominator * factor) =
      rounded negative numerator denominator := by
  rw [rounded_eq_ofRank, rounded_eq_ofRank, nearestRank_mul_mul numerator hDenominator hFactor]

/-- Twice a finite number is twice its units, rounded. -/
theorem ofNat_two_mul (negative : Bool) (m : Magnitude) :
    ofNat 2 * finite negative m = rounded negative (2 * m.units) 1 := by
  obtain ⟨two, hTwo, -, hUnits⟩ := exists_ofNat_two
  have hPos : 0 < unitsPerOne := by exact_mod_cast unitsPerOne_pos
  have hScaled := rounded_mul_mul negative (2 * m.units) Nat.one_pos hPos
  rw [← hScaled, Nat.one_mul, Nat.mul_right_comm, ← hUnits, hTwo]
  show mul _ _ = _
  rw [mul, Bool.false_bne]

/-- Adding a number to itself doubles it. -/
theorem add_self (x : Binary64) : x + x = ofNat 2 * x := by
  cases x with
  | nan signaling =>
    obtain ⟨two, hTwo, -, -⟩ := exists_ofNat_two
    rw [hTwo]
    rfl
  | infinite negative =>
    obtain ⟨two, hTwo, hRank, -⟩ := exists_ofNat_two
    show add _ _ = mul _ _
    rw [hTwo]
    simp [add, mul, hRank]
  | finite negative m =>
    have hSize : (signedUnits negative m + signedUnits negative m).natAbs = 2 * m.units := by
      unfold signedUnits
      split <;> omega
    rw [ofNat_two_mul, ← hSize]
    show add _ _ = _
    simp only [add, Bool.and_self]
    split
    · rename_i hZero
      rw [hZero]
      exact (rounded_zero negative).symm
    · rename_i hNonzero
      have hSign : decide (signedUnits negative m + signedUnits negative m < 0) = negative := by
        cases negative with
        | false => simp [signedUnits]
        | true =>
          simp only [signedUnits, if_true] at hNonzero ⊢
          simp only [decide_eq_true_eq]
          omega
      rw [hSign]

theorem sub_self {x : Binary64} (h : x.isFinite = true) : x - x = zero := by
  cases x with
  | nan signaling => cases h
  | infinite negative => cases h
  | finite negative m =>
    show (finite negative m).add (finite (!negative) m) = zero
    cases negative <;> simp [add, signedUnits, zero]

end Binary64

namespace Session

variable {s : Session}

theorem memoryRecall_clear (h : s.memory.isZero = false) :
    s.clear.memoryRecall = s.clear.edit s.memory.raw := by
  rw [memoryRecall, if_neg (by rw [show s.clear.memory = s.memory from rfl, h]; decide)]
  rfl

theorem memoryAdd_of_value {x : Binary64} (h : s.outcome = .value x) :
    s.memoryAdd = s.store (s.memory + x) := by
  simp only [memoryAdd, h, Outcome.value?]

theorem memorySubtract_of_value {x : Binary64} (h : s.outcome = .value x) :
    s.memorySubtract = s.store (s.memory - x) := by
  simp only [memorySubtract, h, Outcome.value?]

/-- A finite number other than zero that is recalled into a cleared buffer is its value, in both
units of angle. Subtracting the value from the register leaves zero there; adding it leaves the
double of the register, or the register as it is if the double overflows. -/
theorem evaluate_recalled (h : Reachable s) (hZero : s.memory.isZero = false) :
    let recalled := s.clear.memoryRecall
    let double := Binary64.ofNat 2 * s.memory
    (∀ angle, evaluate angle recalled.input = .value s.memory) ∧
      recalled.memorySubtract.memory = .zero ∧
      recalled.memoryAdd.memory = if double.isFinite then double else s.memory := by
  intro recalled double
  have hFinite := h.isFinite_memory
  have hRecalled : recalled = s.clear.edit s.memory.raw := memoryRecall_clear hZero
  have hMemory : recalled.memory = s.memory := by rw [hRecalled]; rfl
  have hValue : ∀ angle, evaluate angle recalled.input = .value s.memory := by
    intro angle
    have hText := (Binary64.spells_raw hFinite hZero).evalText angle
    rw [hRecalled, input_edit]
    exact evaluate_eq_value_iff.mpr ⟨hText, hFinite⟩
  have hOutcome : recalled.outcome = .value s.memory := hValue recalled.angle
  refine ⟨hValue, ?_, ?_⟩
  · rw [memorySubtract_of_value hOutcome, hMemory, Binary64.sub_self hFinite]
    rfl
  · rw [memoryAdd_of_value hOutcome, store_eq, hMemory, Binary64.add_self]

/-- A register whose double overflows. -/
theorem evaluate_recalled_of_overflow :
    let s := new.performAll [.load "-1e308".toList, .memoryAdd]
    let recalled := s.clear.memoryRecall
    Reachable s ∧ s.memory.isZero = false ∧
      evaluate .degrees recalled.input = .value s.memory ∧
      recalled.memorySubtract.memory = .zero ∧
      (Binary64.ofNat 2 * s.memory).isFinite = false ∧ recalled.memoryAdd.memory = s.memory := by
  intro s recalled
  have hReachable : Reachable s := Reachable.new.performAll _
  have hZero : s.memory.isZero = false := by decide +kernel
  have hOverflow : (Binary64.ofNat 2 * s.memory).isFinite = false := by decide +kernel
  obtain ⟨hValue, hSubtract, hAdd⟩ := evaluate_recalled hReachable hZero
  exact ⟨hReachable, hZero, hValue .degrees, hSubtract, hOverflow,
    hAdd.trans (if_neg (by rw [hOverflow]; decide))⟩

end Session

end Calculator
