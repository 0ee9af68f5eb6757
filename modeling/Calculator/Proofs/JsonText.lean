import Calculator.Json.Parser
import Calculator.Json.Writer
import Mathlib.Data.List.Forall2

/-! The text of a value is read back as the value. A text takes the parser from one state to another
when its tokens do; the writer's arrays and objects are blocks of items, which differ only in the
states before and after an item. -/

namespace Calculator.Json

/-! ### Strings -/

variable {c e : Char} {rest : Text}

theorem hexUnit?_control : ∀ n : Fin 32,
    hexUnit? '0' '0' (Nat.digitChar (n / 16)) (Nat.digitChar (n % 16)) =
      some (.char (Char.ofNat n)) := by
  decide

/-- A character stands for itself, or behind a backslash as a letter or as a number. -/
theorem escape_cases (c : Char) :
    (∃ e, escape c = ['\\', e] ∧ escaped? e = some c) ∨
    (c.toNat < 32 ∧ escape c =
      ['\\', 'u', '0', '0', Nat.digitChar (c.toNat / 16), Nat.digitChar (c.toNat % 16)]) ∨
    (c ≠ '"' ∧ c ≠ '\\' ∧ ¬ c.toNat < 32 ∧ escape c = [c]) := by
  by_cases hLetter : c ∈ ['"', '\\', '\x08', '\x0c', '\n', '\r', '\t']
  · simp only [List.mem_cons, List.not_mem_nil, or_false] at hLetter
    rcases hLetter with rfl | rfl | rfl | rfl | rfl | rfl | rfl <;> exact .inl ⟨_, rfl, rfl⟩
  · simp only [List.mem_cons, List.not_mem_nil, or_false, not_or] at hLetter
    simp only [escape, hLetter, if_false, ne_eq, not_false_iff, true_and]
    by_cases hControl : c.toNat < 32
    · simp [hControl]
    · simp [hControl]

theorem readUnits_backslash (h : escaped? e = some c) :
    readUnits ('\\' :: e :: rest) =
      (readUnits rest).map fun (units, after) => (.char c :: units, after) := by
  -- A letter `u` would start an escape by number.
  have hLetter : e ≠ 'u' := by
    rintro rfl
    simp [escaped?] at h
  rw [readUnits]
  · rw [h]
    cases readUnits rest <;> rfl
  · exact fun _ _ _ _ _ h => absurd h hLetter

theorem readUnits_plain (hQuote : c ≠ '"') (hBackslash : c ≠ '\\') (hPlain : ¬ c.toNat < 32) :
    readUnits (c :: rest) =
      (readUnits rest).map fun (units, after) => (.char c :: units, after) := by
  rw [readUnits]
  · rw [if_neg (by simp [hPlain, hBackslash])]
    cases readUnits rest <;> rfl
  all_goals simp [*]

theorem readUnits_escape (c : Char) (rest : Text) :
    readUnits (escape c ++ rest) =
      (readUnits rest).map fun (units, after) => (.char c :: units, after) := by
  rcases escape_cases c with ⟨e, hText, hEscaped⟩ | ⟨hControl, hText⟩ |
      ⟨hQuote, hBackslash, hPlain, hText⟩
  · rw [hText]
    exact readUnits_backslash hEscaped
  · have hUnit := hexUnit?_control ⟨c.toNat, hControl⟩
    rw [Char.ofNat_toNat] at hUnit
    rw [hText, List.cons_append, List.cons_append]
    simp only [List.cons_append, List.nil_append, readUnits, hUnit]
    cases readUnits rest <;> rfl
  · rw [hText]
    exact readUnits_plain hQuote hBackslash hPlain

theorem readUnits_flatMap_escape (s rest : Text) :
    readUnits (s.flatMap escape ++ '"' :: rest) = some (s.map .char, rest) := by
  induction s with
  | nil => simp [readUnits]
  | cons c s ih =>
    rw [List.flatMap_cons, List.append_assoc, readUnits_escape, ih]
    rfl

theorem joinUnits_map_char (s : Text) : joinUnits (s.map .char) = some s := by
  induction s with
  | nil => rfl
  | cons c s ih =>
    rw [List.map_cons, joinUnits, ih]
    rfl

/-! ### Tokens -/

/-- The text has the tokens, whatever text follows. -/
def Lexes (s : Text) (ts : List Token) : Prop :=
  ∀ rest, Token.scan? (s ++ rest) = (Token.scan? rest).map (ts ++ ·)

variable {s s' : Text} {ts ts' : List Token} {t : Token}

theorem lexes_nil : Lexes [] [] := by
  intro rest
  cases h : Token.scan? rest <;> simp [h]

theorem Lexes.append (h : Lexes s ts) (h' : Lexes s' ts') : Lexes (s ++ s') (ts ++ ts') := by
  intro rest
  rw [List.append_assoc, h, h', Option.map_map]
  congr 1
  funext us
  exact (List.append_assoc ts ts' us).symm

theorem lexes_space (h : isSpace c = true) : Lexes [c] [] := by
  intro rest
  rw [List.singleton_append, Token.scan?, if_pos h]
  cases Token.scan? rest <;> rfl

theorem scan?_of_next? (hSpace : isSpace c = false) (hNext : Token.next? c s = some (t, rest)) :
    Token.scan? (c :: s) = (Token.scan? rest).map ([t] ++ ·) := by
  rw [Token.scan?, if_neg (by rw [hSpace]; exact Bool.false_ne_true)]
  split
  · rename_i hNone
    rw [hNext] at hNone
    cases hNone
  · rename_i hSome
    rw [hNext] at hSome
    cases hSome
    rfl

theorem lexes_of_next? (hSpace : isSpace c = false)
    (hNext : ∀ rest, Token.next? c (s ++ rest) = some (t, rest)) : Lexes (c :: s) [t] :=
  fun rest => scan?_of_next? hSpace (hNext rest)

theorem lexes_newline (indent : ℕ) : Lexes (newline indent) [] := by
  have hBlanks : Lexes (List.replicate indent ' ') [] := by
    induction indent with
    | zero => exact lexes_nil
    | succ n ih => exact (lexes_space (c := ' ') rfl).append ih
  exact (lexes_space (c := '\n') rfl).append hBlanks

theorem lexes_quote (s : Text) : Lexes (quote s) [.string (some s)] := by
  apply lexes_of_next? (s := s.flatMap escape ++ ['"']) rfl
  intro rest
  rw [List.append_assoc, List.singleton_append]
  simp only [Token.next?, readUnits_flatMap_escape, Option.map_some, joinUnits_map_char]

/-! ### Values -/

open Calculator.Json.Parser

/-- The text's tokens take the parser from one state to another. -/
def Runs (st : State) (s : Text) (st' : State) : Prop :=
  ∃ ts, Lexes s ts ∧ ts.foldlM step st = some st'

/-- The text is that of the value, wherever a value is due. -/
def Spells (s : Text) (v : Json) : Prop := ∀ stack, Runs (.value stack) s (.complete stack v)

variable {st st' st'' : State}

theorem Runs.append (h : Runs st s st') (h' : Runs st' s' st'') : Runs st (s ++ s') st'' := by
  obtain ⟨ts, hLex, hRun⟩ := h
  obtain ⟨ts', hLex', hRun'⟩ := h'
  refine ⟨ts ++ ts', hLex.append hLex', ?_⟩
  rw [List.foldlM_append, hRun]
  exact hRun'

theorem Runs.of_lexes (h : Lexes s [t]) (hStep : step st t = some st') : Runs st s st' := by
  refine ⟨[t], h, ?_⟩
  rw [List.foldlM_cons, hStep]
  rfl

/-- A character that is a token by itself. -/
theorem runs_mark (hSpace : isSpace c = false)
    (hNext : ∀ rest, Token.next? c rest = some (t, rest)) (hStep : step st t = some st') :
    Runs st [c] st' :=
  .of_lexes (lexes_of_next? hSpace hNext) hStep

theorem runs_newline (st : State) (indent : ℕ) : Runs st (newline indent) st :=
  ⟨[], lexes_newline indent, rfl⟩

/-- What a text does from one state it does from another that takes its first token alike. -/
theorem Runs.of_step (h : Runs st s st'') (hMoves : st ≠ st'')
    (hStep : ∀ t next, step st t = some next → step st' t = some next) : Runs st' s st'' := by
  obtain ⟨ts, hLex, hRun⟩ := h
  refine ⟨ts, hLex, ?_⟩
  cases ts with
  | nil => exact absurd (Option.some.inj hRun) hMoves
  | cons t ts =>
    obtain ⟨next, hFirst, hRest⟩ := Option.bind_eq_some_iff.mp hRun
    rw [List.foldlM_cons, hStep t next hFirst]
    exact hRest

/-- The tokens of a whole text, which stands in front of nothing, are those of its value. -/
theorem parse?_of_run {v : Json} (hLex : Token.scan? (s ++ []) = (Token.scan? []).map (ts ++ ·))
    (hRun : ts.foldlM step (.value []) = some (.complete [] v)) : parse? s = some v := by
  rw [List.append_nil, Token.scan?, Option.map_some, List.append_nil] at hLex
  rw [parse?, hLex]
  show ofTokens? ts = some v
  rw [ofTokens?, hRun]
  rfl

theorem parse?_of_spells {v : Json} (h : Spells s v) : parse? s = some v := by
  obtain ⟨ts, hLex, hRun⟩ := h []
  exact parse?_of_run (hLex []) hRun

theorem spells_quote (s : Text) : Spells (quote s) (.string (some s)) := by
  intro stack
  exact .of_lexes (lexes_quote s) rfl

/-! ### Arrays and objects -/

/-- The states of the parser in a block of items: at its start, where an item is due and where one
is complete behind the given ones, last first, and where the whole block is complete. -/
structure Block (α : Type) (closing : Char) where
  start : State
  due : List α → State
  done : α → List α → State
  full : List α → State
  comma : ∀ a before, step (done a before) .comma = some (due (a :: before))
  close : ∀ a before, Runs (done a before) [closing] (full (a :: before).reverse)
  empty : Runs start [closing] (full [])
  moves : ∀ a, due [] ≠ done a []
  first : ∀ t next, step (due []) t = some next → step start t = some next

def arrayBlock (stack : List Frame) : Block Json ']' where
  start := .arrayStart stack
  due before := .value (.array before :: stack)
  done v before := .complete (.array before :: stack) v
  full items := .complete stack (.array items)
  comma _ _ := rfl
  close _ _ := runs_mark rfl (fun _ => rfl) rfl
  empty := runs_mark rfl (fun _ => rfl) rfl
  moves _ h := State.noConfusion h
  first t next h := by
    cases t with
    | endArray => cases h
    | _ => exact h

def objectBlock (stack : List Frame) : Block (Option Text × Json) '\x7d' where
  start := .objectStart stack
  due before := .name stack before
  done m before := .complete (.object before m.1 :: stack) m.2
  full members := .complete stack (.object members)
  comma _ _ := rfl
  close _ _ := runs_mark rfl (fun _ => rfl) rfl
  empty := runs_mark rfl (fun _ => rfl) rfl
  moves _ h := State.noConfusion h
  first t next h := by
    cases t with
    | string name => exact h
    | _ => cases h

theorem runs_openArray (stack : List Frame) :
    Runs (.value stack) ['['] (arrayBlock stack).start :=
  runs_mark rfl (fun _ => rfl) rfl

theorem runs_openObject (stack : List Frame) :
    Runs (.value stack) ['\x7b'] (objectBlock stack).start :=
  runs_mark rfl (fun _ => rfl) rfl

theorem joinWith_cons (separator : Char) (word : Text) (words : List Text) :
    Text.joinWith separator (word :: words) = word ++ words.flatMap (separator :: ·) := by
  induction words generalizing word with
  | nil => simp [Text.joinWith]
  | cons next words ih => rw [Text.joinWith, ih, List.flatMap_cons, List.cons_append]

namespace Block

variable {α : Type} {closing : Char} {b : Block α closing}
variable {lines items : List Text} {as : List α}

/-- The texts are those of the items, wherever one is due in the block. -/
def Fills (b : Block α closing) : List Text → List α → Prop :=
  List.Forall₂ fun s a => ∀ before, Runs (b.due before) s (b.done a before)

theorem runs_rest (h : b.Fills lines as) (indent : ℕ) (a : α) (before : List α) :
    Runs (b.done a before) (lines.flatMap (',' :: ·) ++ (newline indent ++ [closing]))
      (b.full ((a :: before).reverse ++ as)) := by
  induction h generalizing a before with
  | nil =>
    rw [List.append_nil]
    exact (runs_newline _ indent).append (b.close a before)
  | @cons line a' lines as hLine _ ih =>
    have hComma : Runs (b.done a before) [','] (b.due (a :: before)) :=
      runs_mark rfl (fun _ => rfl) (b.comma a before)
    have hRun := hComma.append ((hLine (a :: before)).append (ih a' (a :: before)))
    simpa using hRun

theorem runs_writeBlock {opening : Char} (hOpening : Runs st [opening] b.start)
    (h : b.Fills items as) (indent : ℕ) :
    Runs st (writeBlock opening closing indent items) (b.full as) := by
  have hLine (s : Text) (a : α) (hItem : ∀ before, Runs (b.due before) s (b.done a before))
      (before : List α) : Runs (b.due before) (newline (indent + 2) ++ s) (b.done a before) :=
    (runs_newline _ _).append (hItem before)
  cases h with
  | nil => exact hOpening.append b.empty
  | @cons s a items as hItem hItems =>
    -- The first line has no comma in front of it, and the parser is not where an item is due.
    have hLines : b.Fills (items.map (newline (indent + 2) ++ ·)) as :=
      List.forall₂_map_left_iff.mpr (hItems.imp hLine)
    have hFirst := (hLine s a hItem []).of_step (b.moves a) b.first
    have hRun := hOpening.append (hFirst.append (runs_rest hLines indent a []))
    rw [writeBlock, if_neg (by simp)]
    simpa [joinWith_cons] using hRun

end Block

theorem spells_writeArray {items : List Text} {vs : List Json} (h : List.Forall₂ Spells items vs)
    (indent : ℕ) : Spells (writeArray indent items) (.array vs) := by
  intro stack
  exact Block.runs_writeBlock (runs_openArray stack) (h.imp fun _ _ hItem before => hItem _) indent

/-- Each text of a member's value is that of the value, under the same name. -/
def SpellMembers : List (Text × Text) → List (Option Text × Json) → Prop :=
  List.Forall₂ fun m member => some m.1 = member.1 ∧ Spells m.2 member.2

theorem spells_writeObject {texts : List (Text × Text)} {members : List (Option Text × Json)}
    (h : SpellMembers texts members) (indent : ℕ) :
    Spells (writeObject indent texts) (.object members) := by
  intro stack
  apply Block.runs_writeBlock (runs_openObject stack)
  apply List.forall₂_map_left_iff.mpr
  apply h.imp
  rintro ⟨name, text⟩ ⟨_, v⟩ ⟨rfl, hValue⟩ before
  have hName : Runs (.name stack before) (quote name) (.colon stack before (some name)) :=
    .of_lexes (lexes_quote name) rfl
  have hColon : Runs (.colon stack before (some name)) [':']
      (.value (.object before (some name) :: stack)) :=
    runs_mark rfl (fun _ => rfl) rfl
  have hBlank (st : State) : Runs st [' '] st := ⟨[], lexes_space rfl, rfl⟩
  exact hName.append (hColon.append ((hBlank _).append (hValue _)))

end Calculator.Json
