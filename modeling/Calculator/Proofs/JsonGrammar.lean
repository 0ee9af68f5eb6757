import Calculator.Proofs.JsonText
import Calculator.Proofs.NumeralText

/-! The grammar of the data format, and that the parser reads every text of it as the value that it
is a text of. A number ends only in front of what cannot continue it, so that what a value does to
the parser is known in front of such texts only; with a mark behind it, it is known in front of
all. -/

namespace Calculator.Json

/-! ### Numbers -/

/-- One digit or more. -/
def IsDigits (s : Text) : Prop := s ≠ [] ∧ ∀ c ∈ s, c.isDigit = true

inductive WholeText : Text → Prop
  | zero : WholeText ['0']
  | digits {c : Char} {s : Text} : c ≠ '0' → IsDigits (c :: s) → WholeText (c :: s)

inductive FractionText : Text → Prop
  | none : FractionText []
  | digits {s : Text} : IsDigits s → FractionText ('.' :: s)

inductive ExponentText : Text → Prop
  | none : ExponentText []
  | digits {mark : Char} {sign s : Text} : mark = 'e' ∨ mark = 'E' →
      sign = [] ∨ sign = ['+'] ∨ sign = ['-'] → IsDigits s → ExponentText (mark :: (sign ++ s))

inductive NumberText : Text → Prop
  | parts {sign whole fraction exponent : Text} : sign = [] ∨ sign = ['-'] → WholeText whole →
      FractionText fraction → ExponentText exponent →
      NumberText (sign ++ (whole ++ (fraction ++ exponent)))

/-! ### Strings -/

/-- A hexadecimal digit, in either case. -/
def HexDigit (c : Char) (n : ℕ) : Prop :=
  n < 16 ∧ (c = Nat.digitChar n ∨ c = (Nat.digitChar n).toUpper)

inductive CodeText : Text → ℕ → Prop
  | digits {a b c d : Char} {i j k l : ℕ} : HexDigit a i → HexDigit b j → HexDigit c k →
      HexDigit d l → CodeText [a, b, c, d] (((i * 16 + j) * 16 + k) * 16 + l)

/-- The letters behind a backslash, with the characters that they stand for. -/
def escapes : List (Char × Char) :=
  [('"', '"'), ('\\', '\\'), ('/', '/'), ('b', '\x08'), ('f', '\x0c'), ('n', '\n'), ('r', '\r'),
    ('t', '\t')]

/-- A character or an escape, and what it stands for. -/
inductive UnitText : Text → CodeUnit → Prop
  | plain {c : Char} : 0x20 ≤ c.toNat → c ≠ '"' → c ≠ '\\' → UnitText [c] (.char c)
  | letter {e c : Char} : (e, c) ∈ escapes → UnitText ['\\', e] (.char c)
  | code {s : Text} {c : Char} : CodeText s c.toNat → UnitText ('\\' :: 'u' :: s) (.char c)
  | surrogate {s : Text} {unit : ℕ} : CodeText s unit → 0xD800 ≤ unit → unit < 0xE000 →
      UnitText ('\\' :: 'u' :: s) (.surrogate unit)

inductive UnitsText : Text → List CodeUnit → Prop
  | nil : UnitsText [] []
  | cons {s s' : Text} {unit : CodeUnit} {units : List CodeUnit} : UnitText s unit →
      UnitsText s' units → UnitsText (s ++ s') (unit :: units)

/-- The units are those of the text: a character stands for itself or for a pair of surrogates. -/
inductive Encodes : List CodeUnit → Text → Prop
  | nil : Encodes [] []
  | char {c : Char} {units : List CodeUnit} {t : Text} :
      Encodes units t → Encodes (.char c :: units) (c :: t)
  | pair {high low : ℕ} {c : Char} {units : List CodeUnit} {t : Text} : 0xD800 ≤ high →
      high < 0xDC00 → 0xDC00 ≤ low → low < 0xE000 →
      c.toNat = 0x10000 + (high - 0xD800) * 0x400 + (low - 0xDC00) →
      Encodes units t → Encodes (.surrogate high :: .surrogate low :: units) (c :: t)

/-- A string. It spells a text if its units are those of one, and else none. -/
inductive StringText : Text → Option Text → Prop
  | quoted {s : Text} {units : List CodeUnit} {x : Option Text} : UnitsText s units →
      (∀ t, x = some t ↔ Encodes units t) → StringText ('"' :: (s ++ ['"'])) x

/-! ### Values -/

def IsWhitespace (s : Text) : Prop := ∀ c ∈ s, c = ' ' ∨ c = '\n' ∨ c = '\t' ∨ c = '\r'

mutual

/-- A text of a value. -/
inductive ValueText : Text → Json → Prop
  | null : ValueText "null".toList .null
  | true : ValueText "true".toList (.bool true)
  | false : ValueText "false".toList (.bool false)
  | number {s : Text} : NumberText s → ValueText s (.number s)
  | string {s : Text} {x : Option Text} : StringText s x → ValueText s (.string x)
  | emptyArray {w : Text} : IsWhitespace w → ValueText ('[' :: (w ++ [']'])) (.array [])
  | array {s : Text} {vs : List Json} :
      ElementsText s vs → ValueText ('[' :: (s ++ [']'])) (.array vs)
  | emptyObject {w : Text} : IsWhitespace w → ValueText ('\x7b' :: (w ++ ['\x7d'])) (.object [])
  | object {s : Text} {ms : List (Option Text × Json)} :
      MembersText s ms → ValueText ('\x7b' :: (s ++ ['\x7d'])) (.object ms)

/-- A text of a value between blanks. -/
inductive ElementText : Text → Json → Prop
  | padded {w s w' : Text} {v : Json} : IsWhitespace w → ValueText s v → IsWhitespace w' →
      ElementText (w ++ (s ++ w')) v

inductive ElementsText : Text → List Json → Prop
  | one {s : Text} {v : Json} : ElementText s v → ElementsText s [v]
  | more {s s' : Text} {v : Json} {vs : List Json} : ElementText s v → ElementsText s' vs →
      ElementsText (s ++ ',' :: s') (v :: vs)

inductive MemberText : Text → Option Text × Json → Prop
  | named {w s w' s' : Text} {name : Option Text} {v : Json} : IsWhitespace w →
      StringText s name → IsWhitespace w' → ElementText s' v →
      MemberText (w ++ (s ++ (w' ++ ':' :: s'))) (name, v)

inductive MembersText : Text → List (Option Text × Json) → Prop
  | one {s : Text} {m : Option Text × Json} : MemberText s m → MembersText s [m]
  | more {s s' : Text} {m : Option Text × Json} {ms : List (Option Text × Json)} :
      MemberText s m → MembersText s' ms → MembersText (s ++ ',' :: s') (m :: ms)

end

/-! ### Reading numbers -/

section

variable {s rest sign whole fraction exponent : Text}

theorem afterDigits?_append (h : IsDigits s) (hRest : HeadFails Char.isDigit rest) :
    afterDigits? (s ++ rest) = some rest := by
  obtain ⟨hTake, hDrop⟩ := takeWhile_append_of_headFails h.2 hRest
  rw [afterDigits?, hTake, hDrop, if_neg (by simpa using h.1)]

theorem WholeText.afterWhole?_append (h : WholeText whole) (hRest : HeadFails Char.isDigit rest) :
    afterWhole? (whole ++ rest) = some rest := by
  cases h with
  | zero => rfl
  | @digits c s hNonzero hDigits =>
    rw [← afterDigits?_append hDigits hRest, List.cons_append, afterWhole?]
    exact fun _ h => absurd (List.cons.inj h).1 hNonzero

theorem ExponentText.headFails (h : ExponentText exponent) :
    HeadFails Char.isDigit exponent ∧ HeadFails (· == '.') exponent := by
  cases h with
  | none => exact ⟨headFails_nil _, headFails_nil _⟩
  | digits hMark =>
    rcases hMark with rfl | rfl <;> exact ⟨headFails_cons.mpr rfl, headFails_cons.mpr rfl⟩

theorem FractionText.headFails (h : FractionText fraction) : HeadFails Char.isDigit fraction := by
  cases h with
  | none => exact headFails_nil _
  | digits _ => exact headFails_cons.mpr rfl

theorem FractionText.afterFraction?_append (h : FractionText fraction)
    (hExponent : ExponentText exponent) :
    afterFraction? (fraction ++ exponent) = some exponent := by
  cases h with
  | none =>
    rw [List.nil_append, afterFraction?]
    rintro rest rfl
    exact Bool.noConfusion (headFails_cons.mp hExponent.headFails.2)
  | digits hDigits => exact afterDigits?_append hDigits hExponent.headFails.1

theorem afterSign_append (hSign : sign = [] ∨ sign = ['+'] ∨ sign = ['-']) (h : IsDigits s) :
    afterSign (sign ++ s) = s := by
  rcases hSign with rfl | rfl | rfl
  · obtain ⟨c, s, rfl⟩ := List.exists_cons_of_ne_nil h.1
    have hDigit := h.2 c List.mem_cons_self
    rw [List.nil_append, afterSign] <;>
    · rintro _ h
      obtain ⟨rfl, -⟩ := List.cons.inj h
      cases hDigit
  · rfl
  · rfl

theorem ExponentText.afterExponent?_eq (h : ExponentText exponent) :
    afterExponent? exponent = some [] := by
  cases h with
  | none => rfl
  | @digits mark sign s hMark hSign hDigits =>
    have hAfter : afterDigits? (afterSign (sign ++ s)) = some [] := by
      rw [afterSign_append hSign hDigits, ← afterDigits?_append hDigits (headFails_nil _),
        List.append_nil]
    rcases hMark with rfl | rfl <;> exact hAfter

theorem WholeText.exists_cons (h : WholeText whole) :
    ∃ c s, whole = c :: s ∧ c.isDigit = true := by
  cases h with
  | zero => exact ⟨'0', [], rfl, rfl⟩
  | @digits c s _ hDigits => exact ⟨c, s, rfl, hDigits.2 c List.mem_cons_self⟩

theorem NumberText.isNumeral_eq (h : NumberText s) : isNumeral s = true := by
  obtain ⟨hSign, hWhole, hFraction, hExponent⟩ := h
  rename_i sign whole fraction exponent
  have hUnsigned : (afterWhole? (whole ++ (fraction ++ exponent)) >>= afterFraction? >>=
      afterExponent?) = some [] := by
    rw [hWhole.afterWhole?_append (hFraction.headFails.append hExponent.headFails.1),
      Option.bind_eq_bind, Option.bind_some, hFraction.afterFraction?_append hExponent]
    exact hExponent.afterExponent?_eq
  rcases hSign with rfl | rfl
  · obtain ⟨c, s, rfl, hDigit⟩ := hWhole.exists_cons
    rw [List.nil_append, isNumeral]
    · exact beq_iff_eq.mpr hUnsigned
    · rintro _ hMinus
      rw [(List.cons.inj hMinus).1] at hDigit
      cases hDigit
  · exact beq_iff_eq.mpr hUnsigned

theorem IsDigits.isNumeralChar_of_mem (h : IsDigits s) : ∀ c ∈ s, isNumeralChar c = true := by
  intro c hc
  simp [isNumeralChar, h.2 c hc]

theorem NumberText.isNumeralChar_of_mem (h : NumberText s) : ∀ c ∈ s, isNumeralChar c = true := by
  obtain ⟨hSign, hWhole, hFraction, hExponent⟩ := h
  simp only [List.forall_mem_append]
  refine ⟨?_, ?_, ?_, ?_⟩
  · rcases hSign with rfl | rfl
    · exact nofun
    · exact List.forall_mem_singleton.mpr rfl
  · cases hWhole with
    | zero => exact List.forall_mem_singleton.mpr rfl
    | digits _ hDigits => exact hDigits.isNumeralChar_of_mem
  · cases hFraction with
    | none => simp
    | digits hDigits => exact List.forall_mem_cons.mpr ⟨rfl, hDigits.isNumeralChar_of_mem⟩
  · cases hExponent with
    | none => simp
    | digits hMark hSign hDigits =>
      rw [List.forall_mem_cons, List.forall_mem_append]
      refine ⟨?_, ?_, hDigits.isNumeralChar_of_mem⟩
      · rcases hMark with rfl | rfl <;> rfl
      · rcases hSign with rfl | rfl | rfl
        · exact nofun
        · exact List.forall_mem_singleton.mpr rfl
        · exact List.forall_mem_singleton.mpr rfl

theorem NumberText.exists_cons (h : NumberText s) :
    ∃ c s', s = c :: s' ∧ (c.isDigit = true ∨ c = '-') := by
  obtain ⟨hSign, hWhole, -, -⟩ := h
  rcases hSign with rfl | rfl
  · obtain ⟨c, s, rfl, hDigit⟩ := hWhole.exists_cons
    exact ⟨c, _, rfl, .inl hDigit⟩
  · exact ⟨'-', _, rfl, .inr rfl⟩

end

/-! ### Tokens in front of what cannot continue a number -/

/-- The text has the tokens in front of such texts. -/
def LexesBefore (follows : Text → Prop) (s : Text) (ts : List Token) : Prop :=
  ∀ rest, follows rest → Token.scan? (s ++ rest) = (Token.scan? rest).map (ts ++ ·)

/-- A text that does not continue a number. -/
abbrev EndsNumber : Text → Prop := HeadFails isNumeralChar

theorem next?_of_numeral {c : Char} (h : c.isDigit = true ∨ c = '-') (rest : Text) :
    Token.next? c rest =
      if isNumeral (c :: rest.takeWhile isNumeralChar) then
        some (.number (c :: rest.takeWhile isNumeralChar), rest.dropWhile isNumeralChar)
      else none := by
  unfold Token.next?
  split
  case h_11 => rfl
  all_goals
    rcases h with hDigit | hMinus
    · cases hDigit
    · cases hMinus

theorem lexesBefore_number {s : Text} (h : NumberText s) :
    LexesBefore EndsNumber s [.number s] := by
  intro rest hRest
  obtain ⟨c, s', rfl, hFirst⟩ := h.exists_cons
  obtain ⟨hTake, hDrop⟩ := takeWhile_append_of_headFails
    (List.forall_mem_cons.mp h.isNumeralChar_of_mem).2 hRest
  have hSpace : isSpace c = false := by
    cases hSpace : isSpace c with
    | false => rfl
    | true =>
      simp only [isSpace, Bool.or_eq_true, beq_iff_eq] at hSpace
      rcases hSpace with ((rfl | rfl) | rfl) | rfl <;> simp at hFirst
  have hNext : Token.next? c (s' ++ rest) = some (.number (c :: s'), rest) := by
    rw [next?_of_numeral hFirst, hTake, hDrop, if_pos h.isNumeral_eq]
  exact scan?_of_next? hSpace hNext

/-! ### Reading strings -/

section

variable {s : Text} {unit : CodeUnit} {units : List CodeUnit}

theorem HexDigit.hexDigit?_eq {c : Char} {n : ℕ} (h : HexDigit c n) : hexDigit? c = some n := by
  have hEach : ∀ n : Fin 16, hexDigit? (Nat.digitChar n) = some n.val ∧
      hexDigit? (Nat.digitChar n).toUpper = some n.val := by
    decide
  obtain ⟨hLess, rfl | rfl⟩ := h
  · exact (hEach ⟨n, hLess⟩).1
  · exact (hEach ⟨n, hLess⟩).2

theorem mem_escapes_iff {e c : Char} : (e, c) ∈ escapes ↔ escaped? e = some c := by
  constructor
  · have hEach : ∀ p ∈ escapes, escaped? p.1 = some p.2 := by decide
    exact hEach (e, c)
  · intro h
    unfold escaped? at h
    split at h <;> cases h <;> decide

/-- The code of a character is no surrogate's. -/
theorem not_surrogate_toNat (c : Char) : ¬(0xD800 ≤ c.toNat ∧ c.toNat < 0xE000) := by
  have hValid : c.toNat < 0xD800 ∨ 0xDFFF < c.toNat ∧ c.toNat < 0x110000 := c.valid
  omega

theorem CodeText.readUnits_append {code : ℕ} (h : CodeText s code) (rest : Text) :
    readUnits ('\\' :: 'u' :: (s ++ rest)) = (readUnits rest).map fun (units, after) =>
      ((if 0xD800 ≤ code ∧ code < 0xE000 then .surrogate code else .char (.ofNat code)) :: units,
        after) := by
  obtain ⟨ha, hb, hc, hd⟩ := h
  rename_i a b c d i j k l
  have hUnit : hexUnit? a b c d = some (
      let code := ((i * 16 + j) * 16 + k) * 16 + l
      if 0xD800 ≤ code ∧ code < 0xE000 then .surrogate code else .char (.ofNat code)) := by
    simp [hexUnit?, ha.hexDigit?_eq, hb.hexDigit?_eq, hc.hexDigit?_eq, hd.hexDigit?_eq]
  rw [List.cons_append, List.cons_append, List.cons_append, List.cons_append, List.nil_append,
    readUnits, hUnit]
  cases readUnits rest <;> rfl

theorem UnitText.readUnits_append (h : UnitText s unit) (rest : Text) :
    readUnits (s ++ rest) =
      (readUnits rest).map fun (units, after) => (unit :: units, after) := by
  cases h with
  | plain hFrom hQuote hBackslash =>
    exact readUnits_plain hQuote hBackslash (not_lt.mpr hFrom)
  | letter hEscape => exact readUnits_backslash (mem_escapes_iff.mp hEscape)
  | @code s c hCode =>
    rw [List.cons_append, List.cons_append, hCode.readUnits_append, if_neg (not_surrogate_toNat c),
      Char.ofNat_toNat]
  | surrogate hCode hFrom hBelow =>
    rw [List.cons_append, List.cons_append, hCode.readUnits_append, if_pos ⟨hFrom, hBelow⟩]

theorem UnitsText.readUnits_append (h : UnitsText s units) (rest : Text) :
    readUnits (s ++ '"' :: rest) = some (units, rest) := by
  induction h with
  | nil => rfl
  | cons hUnit _ ih =>
    rw [List.append_assoc, hUnit.readUnits_append, ih]
    rfl

/-- The surrogates among the units are in their range. -/
theorem UnitsText.surrogate_of_mem {code : ℕ} (h : UnitsText s units)
    (hMem : .surrogate code ∈ units) : 0xD800 ≤ code ∧ code < 0xE000 := by
  induction h with
  | nil => cases hMem
  | cons hUnit _ ih =>
    rcases List.mem_cons.mp hMem with rfl | hRest
    · cases hUnit with
      | surrogate _ hFrom hBelow => exact ⟨hFrom, hBelow⟩
    · exact ih hRest

/-- The character of a pair of surrogates. -/
theorem toNat_ofNat_pair {high low : ℕ} (hHigh : 0xD800 ≤ high ∧ high < 0xDC00)
    (hLow : 0xDC00 ≤ low ∧ low < 0xE000) :
    (Char.ofNat (0x10000 + (high - 0xD800) * 0x400 + (low - 0xDC00))).toNat =
      0x10000 + (high - 0xD800) * 0x400 + (low - 0xDC00) := by
  rw [Char.ofNat, dif_pos (.inr ⟨by omega, by omega⟩)]
  rfl

theorem joinUnits_eq_some_iff {t : Text}
    (h : ∀ code, .surrogate code ∈ units → 0xD800 ≤ code ∧ code < 0xE000) :
    joinUnits units = some t ↔ Encodes units t := by
  constructor
  · intro hJoin
    induction units using joinUnits.induct generalizing t with
    | case1 =>
      cases hJoin
      exact .nil
    | case2 c rest ih =>
      obtain ⟨t, hRest, rfl⟩ := Option.map_eq_some_iff.mp hJoin
      exact .char (ih (fun code hMem => h code (.tail _ hMem)) hRest)
    | case3 high low rest hPair ih =>
      rw [joinUnits, if_pos hPair] at hJoin
      obtain ⟨t, hRest, rfl⟩ := Option.map_eq_some_iff.mp hJoin
      have hHigh := h high (.head _)
      have hLow := h low (.tail _ (.head _))
      exact .pair hHigh.1 hPair.1 hPair.2 hLow.2
        (toNat_ofNat_pair ⟨hHigh.1, hPair.1⟩ ⟨hPair.2, hLow.2⟩)
        (ih (fun code hMem => h code (.tail _ (.tail _ hMem))) hRest)
    | case4 high low rest hPair =>
      rw [joinUnits, if_neg hPair] at hJoin
      cases hJoin
    | case5 code rest hSingle =>
      rw [joinUnits] at hJoin
      · cases hJoin
      · exact hSingle
  · intro hEncodes
    induction hEncodes with
    | nil => rfl
    | char _ ih =>
      rw [joinUnits, ih fun code hMem => h code (.tail _ hMem)]
      rfl
    | @pair high low c units t _ hHigh hLow _ hChar _ ih =>
      rw [joinUnits, if_pos ⟨hHigh, hLow⟩, ih fun code hMem => h code (.tail _ (.tail _ hMem)),
        ← hChar, Char.ofNat_toNat]
      rfl

theorem StringText.lexes {x : Option Text} (h : StringText s x) : Lexes s [.string x] := by
  obtain ⟨hUnits, hText⟩ := h
  rename_i s units
  have hJoin : joinUnits units = x := by
    apply Option.ext
    intro t
    rw [hText, joinUnits_eq_some_iff fun _ => hUnits.surrogate_of_mem]
  apply lexes_of_next? rfl
  intro rest
  rw [List.append_assoc, List.singleton_append]
  simp only [Token.next?, hUnits.readUnits_append, Option.map_some, hJoin]

end

/-! ### Strings that are written -/

theorem hexDigit_digitChar {n : ℕ} (h : n < 16) : HexDigit (Nat.digitChar n) n := ⟨h, .inl rfl⟩

theorem unitText_escape (c : Char) : UnitText (escape c) (.char c) := by
  rcases escape_cases c with ⟨e, hText, hEscaped⟩ | ⟨hControl, hText⟩ |
      ⟨hQuote, hBackslash, hPlain, hText⟩
  · rw [hText]
    exact .letter (mem_escapes_iff.mpr hEscaped)
  · rw [hText]
    have hCode : CodeText ['0', '0', Nat.digitChar (c.toNat / 16), Nat.digitChar (c.toNat % 16)]
        (((0 * 16 + 0) * 16 + c.toNat / 16) * 16 + c.toNat % 16) :=
      .digits (hexDigit_digitChar (n := 0) (by omega)) (hexDigit_digitChar (n := 0) (by omega))
        (hexDigit_digitChar (by omega)) (hexDigit_digitChar (by omega))
    rw [show ((0 * 16 + 0) * 16 + c.toNat / 16) * 16 + c.toNat % 16 = c.toNat by omega] at hCode
    exact .code hCode
  · rw [hText]
    exact .plain (not_lt.mp hPlain) hQuote hBackslash

theorem unitsText_flatMap_escape (s : Text) : UnitsText (s.flatMap escape) (s.map .char) := by
  induction s with
  | nil => exact .nil
  | cons c s ih => exact .cons (unitText_escape c) ih

theorem encodes_map_char_iff {s t : Text} : Encodes (s.map .char) t ↔ s = t := by
  rw [← joinUnits_eq_some_iff (by simp), joinUnits_map_char, Option.some.injEq]

/-- A quoted text is a string of the grammar. -/
theorem stringText_quote (s : Text) : StringText (quote s) (some s) :=
  .quoted (unitsText_flatMap_escape s) fun _ => Option.some_inj.trans encodes_map_char_iff.symm

/-! ### Reading values -/

open Calculator.Json.Parser

/-- The text's tokens take the parser from one state to another, in front of such texts. -/
def RunsBefore (follows : Text → Prop) (st : State) (s : Text) (st' : State) : Prop :=
  ∃ ts, LexesBefore follows s ts ∧ ts.foldlM step st = some st'

section

variable {st st' st'' : State} {s s' : Text} {follows follows' : Text → Prop}

theorem Runs.before (h : Runs st s st') : RunsBefore follows st s st' := by
  obtain ⟨ts, hLex, hRun⟩ := h
  exact ⟨ts, fun rest _ => hLex rest, hRun⟩

theorem RunsBefore.append (h : RunsBefore follows st s st') (h' : RunsBefore follows' st' s' st'')
    (hFollows : ∀ rest, follows' rest → follows (s' ++ rest)) :
    RunsBefore follows' st (s ++ s') st'' := by
  obtain ⟨ts, hLex, hRun⟩ := h
  obtain ⟨ts', hLex', hRun'⟩ := h'
  refine ⟨ts ++ ts', fun rest hRest => ?_, ?_⟩
  · rw [List.append_assoc, hLex _ (hFollows rest hRest), hLex' rest hRest, Option.map_map]
    congr 1
    funext us
    exact (List.append_assoc ts ts' us).symm
  · rw [List.foldlM_append, hRun]
    exact hRun'

theorem Runs.append_before (h : Runs st s st') (h' : RunsBefore follows st' s' st'') :
    RunsBefore follows st (s ++ s') st'' := by
  have hFirst : RunsBefore (fun _ => True) st s st' := h.before
  exact hFirst.append h' fun _ _ => trivial

/-- With a mark behind it, any text may follow. -/
theorem RunsBefore.append_runs {c : Char} (h : RunsBefore EndsNumber st s st')
    (hMark : isNumeralChar c = false) (h' : Runs st' (c :: s') st'') :
    Runs st (s ++ c :: s') st'' := by
  have hRest : RunsBefore (fun _ => True) st' (c :: s') st'' := h'.before
  obtain ⟨ts, hLex, hRun⟩ := h.append hRest fun _ _ => headFails_cons.mpr hMark
  exact ⟨ts, fun rest => hLex rest trivial, hRun⟩

theorem IsWhitespace.runs (h : IsWhitespace s) (st : State) : Runs st s st := by
  induction s with
  | nil => exact ⟨[], lexes_nil, rfl⟩
  | cons c s ih =>
    obtain ⟨hSpace, hRest⟩ := List.forall_mem_cons.mp h
    have hFirst : Runs st [c] st := by
      refine ⟨[], lexes_space ?_, rfl⟩
      rcases hSpace with rfl | rfl | rfl | rfl <;> rfl
    exact hFirst.append (ih hRest)

theorem IsWhitespace.endsNumber (h : IsWhitespace s) : EndsNumber s := by
  cases s with
  | nil => exact headFails_nil _
  | cons c s =>
    refine headFails_cons.mpr ?_
    rcases h c List.mem_cons_self with rfl | rfl | rfl | rfl <;> rfl

end

/-- The text takes the parser from where a value is due to where it is complete. -/
def SpellsBefore (s : Text) (v : Json) : Prop :=
  ∀ stack, RunsBefore EndsNumber (.value stack) s (.complete stack v)

section

variable {s s' w w' : Text} {v : Json}

theorem Spells.before (h : Spells s v) : SpellsBefore s v := fun stack => (h stack).before

theorem SpellsBefore.padded (hw : IsWhitespace w) (h : SpellsBefore s v) (hw' : IsWhitespace w') :
    SpellsBefore (w ++ (s ++ w')) v := by
  intro stack
  refine (hw.runs _).append_before ((h stack).append (hw'.runs _).before fun rest hRest => ?_)
  exact hw'.endsNumber.append hRest

namespace Block

variable {α : Type} {closing : Char} {b : Block α closing} {a : α} {as : List α}

/-- The text, with the closing mark, takes the parser from where an item is due to where the block
is complete with these items behind the given ones. -/
def FillsUp (b : Block α closing) (s : Text) (as : List α) : Prop :=
  ∀ before, Runs (b.due before) (s ++ [closing]) (b.full (before.reverse ++ as))

/-- The text takes the parser from where an item is due to where it is complete. -/
def Item (b : Block α closing) (s : Text) (a : α) : Prop :=
  ∀ before, RunsBefore EndsNumber (b.due before) s (b.done a before)

theorem Item.fillsUp (h : b.Item s a) (hClosing : isNumeralChar closing = false) :
    b.FillsUp s [a] := by
  intro before
  rw [← List.reverse_cons]
  exact (h before).append_runs hClosing (b.close a before)

theorem Item.fillsUp_cons (h : b.Item s a) (h' : b.FillsUp s' as) :
    b.FillsUp (s ++ ',' :: s') (a :: as) := by
  intro before
  have hComma : Runs (b.done a before) [','] (b.due (a :: before)) :=
    runs_mark rfl (fun _ => rfl) (b.comma a before)
  have hRest := hComma.append (h' (a :: before))
  rw [List.reverse_cons, List.append_assoc] at hRest
  rw [List.append_assoc]
  exact (h before).append_runs rfl hRest

/-- The start of a block is another state than the one where an item is due, since the block may end
there, but it takes the first token of an item alike. -/
theorem FillsUp.runs_start (h : b.FillsUp s as) (hMoves : b.due [] ≠ b.full as) :
    Runs b.start (s ++ [closing]) (b.full as) :=
  (h []).of_step hMoves b.first

end Block

end

/-! ### The forms of values -/

variable {s s' : Text}

theorem spells_null : Spells "null".toList .null := fun _ =>
  .of_lexes (lexes_of_next? (c := 'n') (s := ['u', 'l', 'l']) rfl fun _ => rfl) rfl

theorem spells_true : Spells "true".toList (.bool true) := fun _ =>
  .of_lexes (lexes_of_next? (c := 't') (s := ['r', 'u', 'e']) rfl fun _ => rfl) rfl

theorem spells_false : Spells "false".toList (.bool false) := fun _ =>
  .of_lexes (lexes_of_next? (c := 'f') (s := ['a', 'l', 's', 'e']) rfl fun _ => rfl) rfl

theorem spells_emptyArray {w : Text} (h : IsWhitespace w) :
    Spells ('[' :: (w ++ [']'])) (.array []) := by
  intro stack
  exact (runs_openArray stack).append ((h.runs _).append (arrayBlock stack).empty)

theorem spells_emptyObject {w : Text} (h : IsWhitespace w) :
    Spells ('\x7b' :: (w ++ ['\x7d'])) (.object []) := by
  intro stack
  exact (runs_openObject stack).append ((h.runs _).append (objectBlock stack).empty)

theorem spells_array {vs : List Json} (h : ∀ stack, (arrayBlock stack).FillsUp s vs) :
    Spells ('[' :: (s ++ [']'])) (.array vs) := by
  intro stack
  exact (runs_openArray stack).append ((h stack).runs_start nofun)

theorem spells_object {ms : List (Option Text × Json)}
    (h : ∀ stack, (objectBlock stack).FillsUp s ms) :
    Spells ('\x7b' :: (s ++ ['\x7d'])) (.object ms) := by
  intro stack
  exact (runs_openObject stack).append ((h stack).runs_start nofun)

theorem item_member {w w' : Text} {name : Option Text} {v : Json} (hw : IsWhitespace w)
    (hName : StringText s name) (hw' : IsWhitespace w') (h : SpellsBefore s' v)
    (stack : List Frame) : (objectBlock stack).Item (w ++ (s ++ (w' ++ ':' :: s'))) (name, v) := by
  intro before
  have hString : Runs (.name stack before) s (.colon stack before name) :=
    .of_lexes hName.lexes rfl
  have hColon : Runs (.colon stack before name) [':'] (.value (.object before name :: stack)) :=
    runs_mark rfl (fun _ => rfl) rfl
  exact (hw.runs _).append_before (hString.append_before ((hw'.runs _).append_before
    (hColon.append_before (h _))))

mutual

-- By recursion on the derivation, one case for each form: only a number depends on what follows.
theorem ValueText.spellsBefore {s : Text} {v : Json} : ValueText s v → SpellsBefore s v
  | .null => spells_null.before
  | .true => spells_true.before
  | .false => spells_false.before
  | .number h => fun _ => ⟨_, lexesBefore_number h, rfl⟩
  | .string h => fun _ => (Runs.of_lexes h.lexes rfl).before
  | .emptyArray h => (spells_emptyArray h).before
  | .array h => (spells_array h.fillsUp).before
  | .emptyObject h => (spells_emptyObject h).before
  | .object h => (spells_object h.fillsUp).before

theorem ElementText.spellsBefore {s : Text} {v : Json} : ElementText s v → SpellsBefore s v
  | .padded hw h hw' => h.spellsBefore.padded hw hw'

theorem ElementsText.fillsUp {s : Text} {vs : List Json} :
    ElementsText s vs → ∀ stack, (arrayBlock stack).FillsUp s vs
  | .one h, stack => Block.Item.fillsUp (fun _ => h.spellsBefore _) rfl
  | .more h h', stack => Block.Item.fillsUp_cons (fun _ => h.spellsBefore _) (h'.fillsUp stack)

theorem MemberText.item {s : Text} {m : Option Text × Json} :
    MemberText s m → ∀ stack, (objectBlock stack).Item s m
  | .named hw hName hw' h => item_member hw hName hw' h.spellsBefore

theorem MembersText.fillsUp {s : Text} {ms : List (Option Text × Json)} :
    MembersText s ms → ∀ stack, (objectBlock stack).FillsUp s ms
  | .one h, stack => (h.item stack).fillsUp rfl
  | .more h h', stack => (h.item stack).fillsUp_cons (h'.fillsUp stack)

end

/-- Every text of the grammar is read as the value that it is a text of. -/
theorem parse?_of_elementText {v : Json} (h : ElementText s v) : parse? s = some v := by
  obtain ⟨ts, hLex, hRun⟩ := h.spellsBefore []
  exact parse?_of_run (hLex [] (headFails_nil _)) hRun

end Calculator.Json
