import Calculator.Proofs.JsonGrammar
import Calculator.Proofs.SnapshotText

/-! Files of settings that were edited by hand. A file may hold the members in any order, between
any blanks and among members of other names with any values, and it may leave some out: it is loaded
as the snapshot with the values that it gives and the usual values of what it leaves out. -/

namespace Calculator

namespace Snapshot

variable {v : Json} {members : List (Option Text × Json)}

/-- The value stands for a choice with this word: it is the word itself, or an object with the word
as its only name, over `null`. -/
inductive ChoiceJson (word : Text) : Json → Prop
  | string : ChoiceJson word (.string (some word))
  | object : ChoiceJson word (.object [(some word, .null)])

/-- All names spell a text. -/
def ProperNames (members : List (Option Text × Json)) : Prop := ∀ m ∈ members, m.1.isSome = true

/-- The value is an object with an expression and a result, each given once. -/
inductive CalculationJson : Json → Calculation → Prop
  | object {members : List (Option Text × Json)} {c : Calculation} : ProperNames members →
      Json.membersNamed members expressionName = [.string (some c.expression)] →
      Json.membersNamed members resultName = [.string (some c.result)] →
      CalculationJson (.object members) c

inductive HistoryJson : Json → List Calculation → Prop
  | array {items : List Json} {cs : List Calculation} : List.Forall₂ CalculationJson items cs →
      HistoryJson (.array items) cs

/-- What the members of a name give: nothing when there is none, and otherwise there is only one,
whose value stands for what is given. -/
inductive Gives {α : Type} (stands : Json → α → Prop) (members : List (Option Text × Json))
    (name : Text) : Option α → Prop
  | missing : Json.membersNamed members name = [] → Gives stands members name none
  | once {v : Json} {a : α} : Json.membersNamed members name = [v] → stands v a →
      Gives stands members name (some a)

/-- The members are those of settings: each one given at most once, among others. -/
structure SettingsMembers (members : List (Option Text × Json)) (angle : Option Angle)
    (theme : Option Theme) (memory : Option Text) (history : Option (List Calculation)) : Prop where
  names : ProperNames members
  angle : Gives (fun v angle => ChoiceJson angle.code v) members angleName angle
  theme : Gives (fun v theme => ChoiceJson theme.code v) members themeName theme
  memory : Gives (fun v memory => v = .string (some memory)) members memoryName memory
  history : Gives HistoryJson members historyName history

theorem choice?_of_choiceJson {word : Text} (h : ChoiceJson word v) : choice? v = some word := by
  cases h <;> rfl

theorem readAngle?_of_choiceJson {angle : Angle} (h : ChoiceJson angle.code v) :
    readAngle? v = some angle := by
  rw [readAngle?, choice?_of_choiceJson h, Option.bind_eq_bind, Option.bind_some,
    Angle.ofCode?_code]

theorem readTheme?_of_choiceJson {theme : Theme} (h : ChoiceJson theme.code v) :
    readTheme? v = some theme := by
  rw [readTheme?, choice?_of_choiceJson h, Option.bind_eq_bind, Option.bind_some,
    Theme.ofCode?_code]

theorem readCalculation?_of_calculationJson {c : Calculation} (h : CalculationJson v c) :
    readCalculation? v = some c := by
  obtain ⟨hNames, hExpression, hResult⟩ := h
  rw [readCalculation?, if_pos (List.all_eq_true.mpr hNames), hExpression, hResult]
  rfl

theorem readHistory?_of_historyJson {cs : List Calculation} (h : HistoryJson v cs) :
    readHistory? v = some cs := by
  obtain ⟨hItems⟩ := h
  rw [readHistory?]
  induction hItems with
  | nil => rfl
  | cons hItem _ ih =>
    rw [List.mapM_cons, readCalculation?_of_calculationJson hItem, ih]
    rfl

theorem Gives.readOptional?_eq {α : Type} {stands : Json → α → Prop} {name : Text}
    {given : Option α} {read? : Json → Option α} (h : Gives stands members name given)
    (hRead : ∀ v a, stands v a → read? v = some a) (default : α) :
    readOptional? read? default (Json.membersNamed members name) = some (given.getD default) := by
  cases h with
  | missing hNone => rw [hNone, readOptional?, Option.getD_none]
  | once hOne hStands => rw [hOne, readOptional?, hRead _ _ hStands, Option.getD_some]

variable {angle : Option Angle} {theme : Option Theme} {memory : Option Text}
variable {history : Option (List Calculation)}

theorem SettingsMembers.ofJson?_eq (h : SettingsMembers members angle theme memory history) :
    ofJson? (.object members) = some ⟨angle.getD initial.angle, theme.getD initial.theme,
      memory.getD initial.memory, history.getD initial.history⟩ := by
  rw [ofJson?, if_pos (List.all_eq_true.mpr h.names), ofValues?,
    h.angle.readOptional?_eq fun _ _ => readAngle?_of_choiceJson,
    h.theme.readOptional?_eq fun _ _ => readTheme?_of_choiceJson,
    h.memory.readOptional?_eq (by rintro _ _ rfl; rfl),
    h.history.readOptional?_eq fun _ _ => readHistory?_of_historyJson]
  rfl

end Snapshot

namespace Store

open Json Snapshot

/-- Settings in a file are loaded, with the usual values of what is left out. -/
theorem load_of_settingsMembers {text : Text} {members : List (Option Text × Json)}
    {angle : Option Angle} {theme : Option Theme} {memory : Option Text}
    {history : Option (List Calculation)} (hText : ElementText text (.object members))
    (h : SettingsMembers members angle theme memory history) :
    load (.file (.file (String.ofList text).toUTF8)) = .ok (some ⟨angle.getD .radians,
      theme.getD .light, memory.getD ['0'], history.getD []⟩) := by
  have hRead : read? text = some ⟨angle.getD .radians, theme.getD .light, memory.getD ['0'],
      history.getD []⟩ := by
    rw [read?, parse?_of_elementText hText]
    exact h.ofJson?_eq
  simp only [load, loadFile, fromUTF8?_toUTF8, String.toList_ofList, hRead]

/-- A file without two of the members, with the others out of order, among blanks and other
members: a number and an unpaired surrogate, which spells no text, are skipped. -/
theorem load_of_settingsMembers_of_edited :
    let text : Text := "\x7b \"x\":[-1.5E+3,\"\\uD800\"],".toList ++
      ("\"history\":[\x7b\"result\":\"2\",\"y\":\x7b\x7d,\"expression\":\"1+1\"\x7d],".toList ++
        "\n\"theme\":\x7b\"dark\":null\x7d\x7d\n".toList)
    let entry : Json := .object [(some resultName, .string (some ['2'])), (some ['y'], .object []),
      (some expressionName, .string (some "1+1".toList))]
    let members : List (Option Text × Json) :=
      [(some ['x'], .array [.number "-1.5E+3".toList, .string none]),
        (some historyName, .array [entry]),
        (some themeName, .object [(some "dark".toList, .null)])]
    ElementText text (.object members) ∧
      SettingsMembers members none (some .dark) none (some [⟨"1+1".toList, ['2']⟩]) ∧
      load (.file (.file (String.ofList text).toUTF8)) =
        .ok (some ⟨.radians, .dark, ['0'], [⟨"1+1".toList, ['2']⟩]⟩) := by
  intro text entry members
  have hBlank {s : Text} {v : Json} (h : ValueText s v) : ElementText s v := by
    have hPadded := @ElementText.padded [] s [] v nofun h nofun
    rwa [List.nil_append, List.append_nil] at hPadded
  have hNamed {s : Text} {v : Json} (name : Text) (h : ValueText s v) :
      MemberText (quote name ++ ':' :: s) (some name, v) :=
    @MemberText.named [] _ [] _ _ _ nofun (stringText_quote name) nofun (hBlank h)
  have hDigit (c : Char) (h : c.isDigit = true) : IsDigits [c] :=
    ⟨by simp, List.forall_mem_singleton.mpr h⟩
  have hNumber : NumberText "-1.5E+3".toList :=
    @NumberText.parts ['-'] ['1'] ['.', '5'] ['E', '+', '3'] (.inr rfl)
      (.digits (by decide) (hDigit '1' rfl)) (.digits (hDigit '5' rfl))
      (@ExponentText.digits 'E' ['+'] ['3'] (.inr rfl) (.inr (.inl rfl)) (hDigit '3' rfl))
  have hSurrogate : StringText "\"\\uD800\"".toList none := by
    have hCode : CodeText "D800".toList 0xD800 :=
      .digits (i := 13) (j := 8) (k := 0) (l := 0) ⟨by decide, by decide⟩ ⟨by decide, by decide⟩
        ⟨by decide, by decide⟩ ⟨by decide, by decide⟩
    refine .quoted (.cons (.surrogate hCode (by decide) (by decide)) .nil) fun t => ?_
    exact iff_of_false nofun nofun
  have hEntry : ValueText
      "\x7b\"result\":\"2\",\"y\":\x7b\x7d,\"expression\":\"1+1\"\x7d".toList entry :=
    .object (.more (hNamed resultName (.string (stringText_quote ['2'])))
      (.more (hNamed ['y'] (.emptyObject (w := []) nofun))
        (.one (hNamed expressionName (.string (stringText_quote "1+1".toList))))))
  have hUnknown : MemberText " \"x\":[-1.5E+3,\"\\uD800\"]".toList
      (some ['x'], .array [.number "-1.5E+3".toList, .string none]) :=
    @MemberText.named [' '] _ [] _ _ _ (by simp [IsWhitespace]) (stringText_quote ['x']) nofun
      (hBlank (.array (.more (hBlank (.number hNumber)) (.one (hBlank (.string hSurrogate))))))
  have hTheme : MemberText "\n\"theme\":\x7b\"dark\":null\x7d".toList
      (some themeName, .object [(some "dark".toList, .null)]) :=
    @MemberText.named ['\n'] _ [] _ _ _ (by simp [IsWhitespace]) (stringText_quote themeName) nofun
      (hBlank (.object (.one (hNamed "dark".toList .null))))
  have hText : ElementText text (.object members) :=
    @ElementText.padded [] _ ['\n'] _ nofun (.object (.more hUnknown
      (.more (hNamed historyName (.array (.one (hBlank hEntry)))) (.one hTheme))))
      (by simp [IsWhitespace])
  have hSettings : SettingsMembers members none (some .dark) none
      (some [⟨"1+1".toList, ['2']⟩]) := by
    constructor
    · simp [ProperNames, members]
    · exact .missing rfl
    · exact .once rfl .object
    · exact .missing rfl
    · exact .once rfl (.array (.cons (.object (by simp [ProperNames]) rfl rfl) .nil))
  exact ⟨hText, hSettings, load_of_settingsMembers hText hSettings⟩

end Store

end Calculator
