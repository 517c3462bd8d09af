import Mathlib
import YulLowering.Proofs.Commands.Arguments
import YulLowering.Proofs.Commands.Runs
import YulLowering.Proofs.Commands.Texts
import YulLowering.Proofs.Outcomes

/-!
# Nothing comes of checking a lowered module

Two runs are compared whose arguments differ in the switch that leaves out validation, or whose files differ
in what settings say of it. Each part of a run comes out the same in both. A file that holds settings cannot
be the program, so what is lowered is the same as well.
-/

namespace YulLowering

/-! ## Settings that differ in validation -/

namespace Settings

/-- Settings as they are written, whether or not they can be used. -/
def written? (content : ByteArray) : Option Settings :=
  match decodeText content with
  | .ok text => Toml.read? text >>= Settings.ofJson? true
  | .error _ => none

/-- The settings of two files are the same but for validation. -/
def DifferInValidation (content other : ByteArray) : Prop :=
  ∃ settings validate, written? content = some settings ∧
    written? other = some { settings with validate := validate }

theorem DifferInValidation.symm {content other : ByteArray} (differ : DifferInValidation content other) :
    DifferInValidation other content := by
  obtain ⟨settings, validate, isWritten, isOther⟩ := differ
  exact ⟨_, settings.validate, isOther, isWritten⟩

theorem written?_inv {content : ByteArray} {settings : Settings} (isWritten : written? content = some settings) :
    ∃ text, decodeText content = .ok text ∧ (Toml.read? text).isSome = true ∧
      ofToml text = settings.checked := by
  unfold written? at isWritten
  cases decoded : decodeText content with
  | error fault =>
      rw [decoded] at isWritten
      cases isWritten
  | ok text =>
      rw [decoded] at isWritten
      dsimp only at isWritten
      refine ⟨text, rfl, ?_, ?_⟩
      · cases isTable : Toml.read? text with
        | none =>
            rw [isTable] at isWritten
            cases isWritten
        | some table => rfl
      · rw [ofToml, isWritten]

/-- What can be used can be used with or without validation. -/
theorem checked_validate {settings : Settings} (validate : Bool) (checked : settings.checked = .ok settings) :
    ({ settings with validate := validate } : Settings).checked =
      .ok { settings with validate := validate } := by
  rw [checked_ok_iff] at checked ⊢
  exact checked

end Settings

/-! ## Systems of files that differ in validation -/

namespace FileSystem

variable {system other : FileSystem}

theorem textOf_inv {path text : String} (isText : system.textOf path = .ok text) :
    ∃ content, system.find path = .ok content ∧ decodeText content = .ok text :=
  bind_ok_inv isText

/-- A file from which settings are loaded is there. -/
theorem find_of_settingsOf {path : String} {settings : Settings}
    (loaded : system.settingsOf path = .ok settings) : ∃ content, system.find path = .ok content := by
  unfold FileSystem.settingsOf at loaded
  split at loaded
  · next isText =>
    obtain ⟨content, found, -⟩ := textOf_inv isText
    exact ⟨content, found⟩
  · cases loaded

theorem settingsOf_of_written {path : String} {content : ByteArray} {settings : Settings}
    (found : system.find path = .ok content) (isWritten : Settings.written? content = some settings) :
    system.settingsOf path = settings.checked := by
  obtain ⟨text, decoded, -, loaded⟩ := Settings.written?_inv isWritten
  have isText : system.textOf path = .ok text := by
    rw [FileSystem.textOf, found]
    exact decoded
  rw [FileSystem.settingsOf, isText]
  exact loaded

/-- The same content twice, but for what settings say of validation. -/
def ContentAlike (content other : ByteArray) : Prop :=
  content = other ∨ Settings.DifferInValidation content other

/-- The same file twice, but for what settings say of validation. -/
structure FileAlike (file other : Place × ByteArray) : Prop where
  place_eq : other.1 = file.1
  content : ContentAlike file.2 other.2

theorem rel_lookup {files others : List (Place × ByteArray)} (alike : List.Forall₂ FileAlike files others)
    (place : Place) : Option.Rel ContentAlike (files.lookup place) (others.lookup place) := by
  induction alike with
  | nil => exact .none
  | @cons file other _ _ same _ ih =>
      obtain ⟨here, content⟩ := file
      obtain ⟨here_too, also⟩ := other
      obtain ⟨rfl, content_alike⟩ := same
      rw [List.lookup_cons, List.lookup_cons]
      cases place == here_too with
      | true => exact .some content_alike
      | false => exact ih

theorem any_place_eq {files others : List (Place × ByteArray)}
    (alike : List.Forall₂ FileAlike files others) (test : Place → Bool) :
    (others.any fun (place, _) => test place) = files.any fun (place, _) => test place := by
  induction alike with
  | nil => rfl
  | @cons file other _ _ same _ ih =>
      rw [List.any_cons, List.any_cons, ih]
      exact congrArg (test · || _) same.place_eq

/-- The same system of files twice, but for what settings say of validation. -/
structure Alike (system other : FileSystem) : Prop where
  workingDirectory_eq : other.workingDirectory = system.workingDirectory
  directories_eq : other.directories = system.directories
  files : List.Forall₂ FileAlike system.files other.files

namespace Alike

theorem symm (alike : system.Alike other) : other.Alike system where
  workingDirectory_eq := alike.workingDirectory_eq.symm
  directories_eq := alike.directories_eq.symm
  files := by
    refine (List.Forall₂.flip alike.files).imp fun file other same => ?_
    exact ⟨same.place_eq.symm, same.content.imp Eq.symm Settings.DifferInValidation.symm⟩

/-- What there is at a place is there in both. -/
theorem content?_rel (alike : system.Alike other) (place : Place) :
    Option.Rel ContentAlike (system.content? place) (other.content? place) :=
  rel_lookup alike.files place

theorem isSome_content? (alike : system.Alike other) (place : Place) :
    (other.content? place).isSome = (system.content? place).isSome := by
  have same := alike.content?_rel place
  generalize system.content? place = content, other.content? place = also at same ⊢
  cases same <;> rfl

theorem isDirectory_eq (alike : system.Alike other) (place : Place) :
    other.isDirectory place = system.isDirectory place := by
  have others := any_place_eq alike.files fun found => place.isPrefixOf found && place.length < found.length
  rw [isDirectory, isDirectory, alike.workingDirectory_eq, alike.directories_eq]
  exact congrArg _ others

theorem follow_eq (alike : system.Alike other) : other.follow = system.follow := by
  funext place name
  rw [follow, follow, alike.isDirectory_eq]
  simp only [alike.isDirectory_eq, alike.isSome_content?]

theorem start_eq (alike : system.Alike other) : other.start = system.start := by
  funext path
  rw [start, start, alike.workingDirectory_eq]

theorem placeOf_eq (alike : system.Alike other) : other.placeOf = system.placeOf := by
  funext text
  unfold placeOf
  rw [alike.follow_eq, alike.start_eq]
  simp only [alike.isDirectory_eq]

/-- What is found is found in both. -/
theorem find (alike : system.Alike other) {text : String} {content : ByteArray}
    (found : system.find text = .ok content) :
    ∃ also, other.find text = .ok also ∧ ContentAlike content also := by
  obtain ⟨path, isPath, following⟩ := bind_ok_inv found
  obtain ⟨place, isPlace, here⟩ := bind_ok_inv following
  rw [FileSystem.find, alike.follow_eq, alike.start_eq, bind_of_ok isPath, bind_of_ok isPlace]
  have same := alike.content?_rel place
  generalize system.content? place = mine, other.content? place = theirs at same here ⊢
  cases same with
  | none => cases here
  | some content_alike =>
      dsimp only at here ⊢
      split at here
      · cases here
      · next file =>
        cases here
        exact ⟨_, if_neg file, content_alike⟩

theorem isOk_find (alike : system.Alike other) (text : String) :
    (other.find text).isOk = (system.find text).isOk := by
  cases found : system.find text with
  | ok content =>
      obtain ⟨also, found_too, -⟩ := alike.find found
      rw [found_too]
      rfl
  | error fault =>
      cases found_too : other.find text with
      | error => rfl
      | ok also =>
          obtain ⟨content, found_too, -⟩ := alike.symm.find found_too
          cases found.symm.trans found_too

/-- A text that is no settings is the same in both. -/
theorem textOf (alike : system.Alike other) {path text : String} (isText : system.textOf path = .ok text)
    (no_settings : (Toml.read? text).isSome = false) : other.textOf path = .ok text := by
  obtain ⟨content, found, decoded⟩ := textOf_inv isText
  obtain ⟨also, found_too, rfl | ⟨settings, validate, isWritten, -⟩⟩ := alike.find found
  · rw [FileSystem.textOf, found_too]
    exact decoded
  · obtain ⟨settings_text, decoded_too, isTable, -⟩ := Settings.written?_inv isWritten
    cases decoded.symm.trans decoded_too
    rw [no_settings] at isTable
    cases isTable

/-- Settings are the same in both but for validation. -/
theorem settingsOf (alike : system.Alike other) {path : String} {settings : Settings}
    (loaded : system.settingsOf path = .ok settings) :
    ∃ validate, other.settingsOf path = .ok { settings with validate := validate } := by
  obtain ⟨content, found⟩ := find_of_settingsOf loaded
  obtain ⟨also, found_too, rfl | ⟨written, validate, isWritten, isOther⟩⟩ := alike.find found
  · refine ⟨settings.validate, ?_⟩
    rw [FileSystem.settingsOf, FileSystem.textOf, found_too, ← found]
    exact loaded
  · rw [settingsOf_of_written found isWritten] at loaded
    obtain rfl := Settings.eq_of_checked loaded
    refine ⟨validate, ?_⟩
    rw [settingsOf_of_written found_too isOther]
    exact Settings.checked_validate validate loaded

theorem settingsFor (alike : system.Alike other) {configured : Option String} {settings : Settings}
    (chosen : system.settingsFor configured = .ok settings) :
    ∃ validate, other.settingsFor configured = .ok { settings with validate := validate } := by
  cases configured with
  | some path => exact alike.settingsOf chosen
  | none =>
      rw [FileSystem.settingsFor] at chosen ⊢
      rw [alike.isOk_find]
      split at chosen
      · next isFile =>
        rw [if_pos isFile]
        exact alike.settingsOf chosen
      · next noFile =>
        rw [if_neg noFile]
        cases chosen
        exact ⟨true, rfl⟩

end Alike

end FileSystem

namespace CommandLine

variable {system other : FileSystem} {input : String} {configured output : Option String}

/-- What can be lowered is lowered to the same module in both. -/
theorem Lowered.transfer (lowered : Lowered system input configured) (alike : system.Alike other) :
    ∃ also : Lowered other input configured, also.module = lowered.module := by
  obtain ⟨settings, text, program, session, module, isSettings, isText, isProgram, isSession, isModule⟩ :=
    lowered
  obtain ⟨validate, otherSettings⟩ := alike.settingsFor isSettings
  have no_settings : (Toml.read? text).isSome = false := by
    cases isTable : Toml.read? text with
    | none => rfl
    | some table => exact absurd isProgram (Block.read_ne_ok_of_toml isTable)
  obtain ⟨types, chosen, created⟩ := Settings.exists_create (FileSystem.checked_of_settingsFor isSettings)
  obtain ⟨_, chosen_too, created_too⟩ :=
    Settings.exists_create (FileSystem.checked_of_settingsFor otherSettings)
  cases chosen.symm.trans chosen_too
  cases created.symm.trans isSession
  exact ⟨⟨_, text, program, _, module, otherSettings, alike.textOf isText no_settings, isProgram,
    created_too, isModule⟩, rfl⟩

/-- Two runs on files of their own end alike: with the same exit code and the same output, and the same has
been written to both. -/
structure EndsAlike (system other : FileSystem) (first second : Report × FileSystem) : Prop where
  exitCode_eq : second.1.exitCode = first.1.exitCode
  output_eq : second.1.output = first.1.output
  written : ∃ files, first.2 = { system with files := files ++ system.files } ∧
    second.2 = { other with files := files ++ other.files }

theorem endsAlike_of_unwritten {first second : Report} (exitCode_eq : second.exitCode = first.exitCode)
    (output_eq : second.output = first.output) :
    EndsAlike system other (first, system) (second, other) :=
  ⟨exitCode_eq, output_eq, [], rfl, rfl⟩

/-- Runs that ask for the same but for validation end alike. -/
theorem endsAlike_runOn {arguments others : List String} {noValidate noValidateToo : Bool}
    (asked : Request.ofArguments arguments = .ok (.lower input configured output noValidate))
    (asked_too : Request.ofArguments others = .ok (.lower input configured output noValidateToo))
    (alike : system.Alike other) :
    EndsAlike system other (runOn system arguments) (runOn other others) := by
  rw [runOn_eq asked, runOn_eq asked_too]
  by_cases can : Nonempty (Lowered system input configured)
  · obtain ⟨lowered⟩ := can
    obtain ⟨also, module_eq⟩ := lowered.transfer alike
    rw [after_runLower lowered, after_runLower also, module_eq]
    cases output with
    | none => exact endsAlike_of_unwritten rfl rfl
    | some path =>
        rw [delivery, delivery, alike.placeOf_eq]
        cases system.placeOf path with
        | error fault => exact endsAlike_of_unwritten rfl rfl
        | ok place => exact ⟨rfl, rfl, [(place, lowered.module.text.toUTF8)], rfl, rfl⟩
  · have cannot : ¬ Nonempty (Lowered other input configured) := by
      rintro ⟨lowered⟩
      obtain ⟨also, -⟩ := lowered.transfer alike.symm
      exact can ⟨also⟩
    obtain ⟨failure, fails⟩ := after_runLower_of_fails can output noValidate
    obtain ⟨failure_too, fails_too⟩ := after_runLower_of_fails cannot output noValidateToo
    rw [fails, fails_too]
    exact endsAlike_of_unwritten rfl rfl

/-- Others are the same arguments with one more: the switch that leaves out validation. -/
def AddsSwitch (arguments others : List String) : Prop :=
  ∃ before after, arguments = before ++ after ∧ others = before ++ "--no-validate" :: after

/-- Arguments that ask for a program to be lowered. -/
def AskToLower (arguments : List String) : Prop :=
  ∃ input configured output noValidate,
    Request.ofArguments arguments = .ok (.lower input configured output noValidate)

/-- A program is lowered and delivered, or nothing is left behind. It makes no difference whether the switch
that leaves out validation is given, nor what the settings say of validation. -/
theorem lower_all_or_nothing {arguments : List String} {noValidate : Bool}
    (asked : Request.ofArguments arguments = .ok (.lower input configured output noValidate))
    (system : FileSystem) :
    AllOrNothing system input configured output (runOn system arguments).1
        (runOn system arguments).2 ∧
      ∀ (others : List String) (other : FileSystem),
        others = arguments ∨ AddsSwitch arguments others ∨ AddsSwitch others arguments →
          AskToLower others → system.Alike other →
            EndsAlike system other (runOn system arguments) (runOn other others) := by
  refine ⟨allOrNothing_runOn asked system, fun others other switched asks alike => ?_⟩
  obtain ⟨input', configured', output', noValidate', asked_too⟩ := asks
  have same : input' = input ∧ configured' = configured ∧ output' = output := by
    rcases switched with rfl | ⟨before, after, rfl, rfl⟩ | ⟨before, after, rfl, rfl⟩
    · cases asked.symm.trans asked_too
      exact ⟨rfl, rfl, rfl⟩
    · exact Request.lower_eq_of_ofArguments asked asked_too
    · obtain ⟨rfl, rfl, rfl⟩ := Request.lower_eq_of_ofArguments asked_too asked
      exact ⟨rfl, rfl, rfl⟩
  obtain ⟨rfl, rfl, rfl⟩ := same
  exact endsAlike_runOn asked asked_too alike

/-- The text of a program with one function that does nothing. -/
def smallProgram : String :=
  "[[[\"FunctionDefinition\",\"f\",[],[],[[]]]]]"

/-- A directory with a program and settings. -/
def smallSystem (settings : String) : FileSystem :=
  ⟨["w"], [], [(["w", "p"], smallProgram.toUTF8), (["w", "s"], settings.toUTF8)]⟩

theorem lower_all_or_nothing_smallSystem :
    let system := smallSystem "validate = true"
    let other := smallSystem "validate = false"
    let arguments := ["lower", "p", "-c", "s", "-o", "o"]
    let others := ["lower", "p", "--no-validate", "-c", "s", "-o", "o"]
    Request.ofArguments arguments = .ok (.lower "p" (some "s") (some "o") false) ∧
      AddsSwitch arguments others ∧ AskToLower others ∧ system.Alike other ∧
        (runOn system arguments).1.exitCode = 0 ∧
          (∃ lowered : Lowered system "p" (some "s"),
            system.content? ["w", "o"] = none ∧
              (runOn system arguments).2.content? ["w", "o"] = some lowered.module.text.toUTF8 ∧
              (runOn system arguments).2.textOf "o" = .ok lowered.module.text ∧
              system.Written ["w", "o"] lowered.module.text.toUTF8 (runOn system arguments).2) ∧
          EndsAlike system other (runOn system arguments) (runOn other others) := by
  intro system other arguments others
  have asked : Request.ofArguments arguments = .ok (.lower "p" (some "s") (some "o") false) := rfl
  have adds : AddsSwitch arguments others := ⟨["lower", "p"], ["-c", "s", "-o", "o"], rfl, rfl⟩
  have asks : AskToLower others := ⟨"p", some "s", some "o", true, rfl⟩
  have alike : system.Alike other := by
    refine ⟨rfl, rfl, .cons ⟨rfl, .inl rfl⟩ (.cons ⟨rfl, .inr ?_⟩ .nil)⟩
    exact ⟨⟨"yul", "u256", true, []⟩, false, by decide +kernel, by decide +kernel⟩
  have isPlace : system.placeOf "o" = .ok ["w", "o"] := by cbv
  have isSettings : system.settingsFor (some "s") = .ok .standard := by
    have found : system.find "s" = .ok "validate = true".toUTF8 := by cbv
    have loaded : system.settingsOf "s" = Settings.standard.checked :=
      FileSystem.settingsOf_of_written found (by decide +kernel)
    exact loaded.trans (Settings.checked_ok_iff.mpr (by decide))
  have isText : system.textOf "p" = .ok smallProgram := by
    have found : system.find "p" = .ok smallProgram.toUTF8 := by cbv
    rw [FileSystem.textOf, found]
    rfl
  have isProgram : Block.read smallProgram = .ok [.definition "f" [] [] []] := by cbv
  obtain ⟨module, isModule⟩ := Lowering.exists_of_isOk
    (show (Session.standard.lower [.definition "f" [] [] []]).1.isOk = true by decide +kernel)
  have lowered : Lowered system "p" (some "s") :=
    ⟨_, _, _, _, module, isSettings, isText, isProgram, rfl, isModule⟩
  obtain ⟨all, unobservable⟩ := lower_all_or_nothing asked system
  have deliverable : Deliverable system (some "o") := by
    rintro _ ⟨⟩
    exact ⟨_, isPlace⟩
  have succeeds := all.success_iff.mpr ⟨⟨lowered⟩, deliverable⟩
  obtain ⟨lowered, -, isText, place, isPlaceToo, written⟩ := all.delivered succeeds
  cases isPlace.symm.trans isPlaceToo
  exact ⟨asked, adds, asks, alike, succeeds, ⟨lowered, rfl, written.holds, isText, written⟩,
    unobservable others other (.inr (.inl adds)) asks alike⟩

end CommandLine

end YulLowering
