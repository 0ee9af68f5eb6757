import Calculator.Proofs.Freshness
import Calculator.Proofs.TypedOperand

/-! Committing a result once more. The text of a committed value has a value of the same text, so a
second commit leaves the buffer as it is. Only the text of a number from `1.79769313485e308` on, which
is rounded to eleven digits, spells a number beyond the largest one; that result is no number to
commit. -/

namespace Calculator

namespace Display

open Magnitude

theorem evaluate_text_zero (angle : Angle) : evaluate angle ['0'] = .value .zero :=
  evaluate_eq_value_iff.mpr ⟨evalText_numeral angle isNumeral_zero, rfl⟩

/-- The text of a number below `1.79769313485e308` evaluates to a number of the same text. -/
theorem exists_evaluate_text (angle : Angle) (negative : Bool) {m : Magnitude}
    (h : m.decimalUnits < 179769313485 * 10 ^ topPlace) :
    ∃ v, evaluate angle (text (.finite negative m)) = .value v ∧
      text v = text (.finite negative m) := by
  by_cases hRank : m.rank = 0
  · have hText : text (.finite negative m) = ['0'] := if_pos hRank
    rw [hText]
    exact ⟨.zero, evaluate_text_zero angle, rfl⟩
  · obtain ⟨m', hRounded⟩ := exists_nearest?_roundToDigits h
    obtain ⟨v, hEval, hSame⟩ := exists_evalText_text angle negative hRank hRounded
    exact ⟨.finite negative v, evaluate_eq_value_iff.mpr ⟨hEval, rfl⟩, hSame⟩

theorem isScientific_of_le {m : Magnitude} (h : 179769313485 * 10 ^ topPlace ≤ m.decimalUnits) :
    isScientific m = true := by
  by_contra hPlain
  have hBelow := (isScientific_eq_false_iff.mp (Bool.eq_false_of_not_eq_true hPlain)).2
  have hUnits := decimalUnits_le_of_rank_le hBelow.le
  have hSmall : plainBelow.decimalUnits < 179769313485 * 10 ^ topPlace := by decide +kernel
  omega

open Token in
/-- The text of a number from `1.79769313485e308` on evaluates to an infinity. -/
theorem evaluate_text_of_le (angle : Angle) (negative : Bool) {m : Magnitude}
    (h : 179769313485 * 10 ^ topPlace ≤ m.decimalUnits) :
    evaluate angle (text (.finite negative m)) = .domain := by
  have hNone : (m.roundToDigits 11).nearest? = none := by
    rw [Option.eq_none_iff_forall_ne_some]
    intro m' hRounded
    exact absurd (exists_nearest?_roundToDigits_iff.mp ⟨m', hRounded⟩) (not_lt.mpr h)
  have hNumeral := isNumeral_magnitudeText_infinite (isScientific_of_le h) hNone
  have hRank : m.rank ≠ 0 :=
    rank_ne_zero_of_decimalUnits_pos (lt_of_lt_of_le (by decide +kernel) h)
  rw [text_finite negative hRank, evaluate, (spells_signed_infinite negative hNumeral).evalText angle]
  rfl

end Display

namespace Session

variable {s : Session}

theorem outcome_commit {x : Binary64} (h : s.outcome = .value x) :
    s.commit.outcome = evaluate s.angle (Display.text x) := by
  rw [commit_of_value h]
  rfl

/-- After a commit, a second one succeeds exactly if the value was below `1.79769313485e308`. It then
leaves the buffer as it is, and records it as an expression whose result it is. -/
theorem commit_commit_iff {negative : Bool} {m : Magnitude}
    (h : s.outcome = .value (.finite negative m)) :
    (∃ y, s.commit.outcome = .value y ∧ s.commit.commit.input = s.commit.input ∧
      s.commit.commit.history.get? 0 = some ⟨s.commit.input, s.commit.input⟩) ↔
      m.decimalUnits < 179769313485 * 10 ^ 1371 := by
  rw [show 1371 = Magnitude.topPlace from rfl]
  obtain ⟨hInput, -, -⟩ := commit_spec h
  constructor
  · rintro ⟨y, hAgain, -, -⟩
    by_contra hBeyond
    rw [outcome_commit h, Display.evaluate_text_of_le s.angle negative (not_lt.mp hBeyond)] at hAgain
    cases hAgain
  · intro hBelow
    obtain ⟨y, hValue, hSame⟩ := Display.exists_evaluate_text s.angle negative hBelow
    have hAgain : s.commit.outcome = .value y := (outcome_commit h).trans hValue
    obtain ⟨hInput', -, hNewest⟩ := commit_spec hAgain
    rw [hSame, ← hInput] at hInput' hNewest
    exact ⟨y, hAgain, hInput', hNewest⟩

/-- A negative number near the end of the range, whose eleven digits round towards zero. -/
theorem commit_commit_iff_near_end :
    let s := new.load "-1.79769313484e308".toList
    let m : Magnitude := ⟨0x7FEFFFFFFFFE4B3C, by decide⟩
    Reachable s ∧ s.outcome = .value (.finite true m) ∧ s.commit.input = "-1.7976931348e+308".toList ∧
      ∃ y, s.commit.outcome = .value y ∧ s.commit.commit.input = s.commit.input ∧
        s.commit.commit.history.get? 0 = some ⟨s.commit.input, s.commit.input⟩ := by
  intro s m
  have hValue : s.outcome = .value (.finite true m) := by decide +kernel
  exact ⟨Reachable.new.load _, hValue, by decide +kernel,
    (commit_commit_iff hValue).mpr (by decide +kernel)⟩

/-- The text of the largest number is `1.7976931349e+308`, which spells an infinity. -/
theorem not_commit_commit :
    ¬ ∀ s : Session, Reachable s → ∀ x, s.outcome = .value x → ∃ y, s.commit.outcome = .value y := by
  intro h
  have hValue : (new.load "1.7976931348623157e308".toList).outcome =
      .value (.finite false Magnitude.largest) := by
    decide +kernel
  obtain ⟨y, hAgain⟩ := h _ (Reachable.new.load _) _ hValue
  have hDomain : (new.load "1.7976931348623157e308".toList).commit.outcome = .domain := by
    decide +kernel
  rw [hDomain] at hAgain
  cases hAgain

end Session

end Calculator
