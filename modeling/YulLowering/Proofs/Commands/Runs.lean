import YulLowering.CommandLine.Commands
import YulLowering.Proofs.Settings
import YulLowering.Proofs.Structure

/-!
# Runs that lower a program

A run reads settings and a program, lowers the program and delivers the module. Whatever goes wrong on the
way, it goes wrong before anything has been written. Whether the structure of the module is checked makes no
difference, as there is nothing to be found.
-/

namespace YulLowering

namespace FileSystem

/-- The text of a file. -/
def textOf (system : FileSystem) (path : String) : Except FileFault String :=
  system.find path >>= decodeText

/-- The settings of a file. -/
def settingsOf (system : FileSystem) (path : String) : Except SettingsFault Settings :=
  match system.textOf path with
  | .ok text => Settings.ofToml text
  | .error fault => .error (.unreadable path fault)

/-- The settings for a command: those of the file that is named, else those of the directory, else the
standard ones. -/
def settingsFor (system : FileSystem) : Option String → Except SettingsFault Settings
  | some path => system.settingsOf path
  | none =>
    if (system.find Settings.fileName).isOk then system.settingsOf Settings.fileName
    else .ok .standard

/-! ## Files that have been written -/

/-- One file has been written, and once: its place holds the content, and nothing else is different. -/
structure Written (system : FileSystem) (place : Place) (content : ByteArray) (later : FileSystem) :
    Prop where
  holds : later.content? place = some content
  others : ∀ other, other ≠ place → later.content? other = system.content? other
  /-- What is written comes in front of the files that there are. -/
  once : later.files = (place, content) :: system.files
  directories : later.directories = system.directories
  workingDirectory : later.workingDirectory = system.workingDirectory

theorem written_insert (system : FileSystem) (place : Place) (content : ByteArray) :
    system.Written place content (system.insert place content) where
  holds := by rw [content?_insert, if_pos rfl]
  others := by
    intro other differs
    rw [content?_insert, if_neg differs]
  once := rfl
  directories := rfl
  workingDirectory := rfl

/-- What a path has to be like to name a place for a file. -/
theorem placeOf_inv {system : FileSystem} {text : String} {place : Place}
    (isPlace : system.placeOf text = .ok place) :
    ∃ path parent name, Path.ofString text = .ok path ∧ path.directory = false ∧
      path.names = path.names.dropLast ++ [name] ∧
      path.names.dropLast.foldlM system.follow (system.start path) = .ok parent ∧
      system.isDirectory parent = true ∧ name ≠ "." ∧ name ≠ ".." ∧
      name.utf8ByteSize ≤ Path.nameLimit ∧ place = parent ++ [name] := by
  obtain ⟨path, isPath, isPlace⟩ := bind_ok_inv isPlace
  obtain ⟨parent, isParent, isPlace⟩ := bind_ok_inv isPlace
  split at isPlace
  · cases isPlace
  · next isDirectory =>
    split at isPlace
    · cases isPlace
    · cases isPlace
    · cases isPlace
    · next name notHere notAbove isLast =>
      split at isPlace
      · cases isPlace
      · next isFile =>
        split at isPlace
        · cases isPlace
        · next short =>
          cases isPlace
          refine ⟨path, parent, name, isPath, ?_, ?_, isParent, Decidable.not_not.mp isDirectory, notHere,
            notAbove, Nat.le_of_not_lt short, rfl⟩
          · simpa using fun directory => isFile (.inl directory)
          · exact (List.dropLast_append_getLast? name isLast).symm

namespace Written

variable {system later : FileSystem} {place : Place} {content : ByteArray}

/-- Directories stay. -/
theorem isDirectory (written : system.Written place content later) {other : Place}
    (isDirectory : system.isDirectory other = true) : later.isDirectory other = true := by
  unfold FileSystem.isDirectory at isDirectory ⊢
  rw [written.workingDirectory, written.directories, written.once, List.any_cons]
  simp only [Bool.or_eq_true] at isDirectory ⊢
  exact isDirectory.imp_right .inr

/-- Files stay where they are, whatever they hold. -/
theorem isSome_content? (written : system.Written place content later) {other : Place}
    (present : (system.content? other).isSome = true) : (later.content? other).isSome = true := by
  by_cases same : other = place
  · rw [same, written.holds]
    rfl
  · rwa [written.others other same]

/-- A name leads where it has led. -/
theorem follow (written : system.Written place content later) {start next : Place} {name : String}
    (leads : system.follow start name = .ok next) : later.follow start name = .ok next := by
  unfold FileSystem.follow at leads ⊢
  split at leads
  · cases leads
  · next isDirectory =>
    rw [if_neg fun absent => absent (written.isDirectory (Decidable.not_not.mp isDirectory))]
    split at leads
    · next isHere => rwa [if_pos isHere]
    · next notHere =>
      rw [if_neg notHere]
      split at leads
      · next isAbove => rwa [if_pos isAbove]
      · next notAbove =>
        rw [if_neg notAbove]
        split at leads
        · cases leads
        · next short =>
          rw [if_neg short]
          dsimp only at leads ⊢
          split at leads
          · next present =>
            rwa [if_pos (present.imp written.isDirectory written.isSome_content?)]
          · cases leads

theorem foldlM_follow (written : system.Written place content later) {names : List String}
    {start last : Place} (leads : names.foldlM system.follow start = .ok last) :
    names.foldlM later.follow start = .ok last := by
  induction names generalizing start with
  | nil => exact leads
  | cons name names ih =>
      rw [List.foldlM_cons] at leads ⊢
      obtain ⟨next, first, rest⟩ := bind_ok_inv leads
      rw [bind_of_ok (written.follow first)]
      exact ih rest

/-- What has been written by a path is found by it. -/
theorem find (written : system.Written place content later) {text : String}
    (isPlace : system.placeOf text = .ok place) : later.find text = .ok content := by
  obtain ⟨path, parent, name, isPath, isFile, areNames, isParent, isDirectory, notHere, notAbove, short,
    rfl⟩ := placeOf_inv isPlace
  have start : later.start path = system.start path := by
    rw [FileSystem.start, FileSystem.start, written.workingDirectory]
  have last : later.follow parent name = .ok (parent ++ [name]) := by
    have present : (later.content? (parent ++ [name])).isSome = true := by
      rw [written.holds]
      rfl
    unfold FileSystem.follow
    rw [if_neg fun absent => absent (written.isDirectory isDirectory), if_neg notHere, if_neg notAbove,
      if_neg (Nat.not_lt.mpr short)]
    exact if_pos (.inr present)
  have leads : path.names.foldlM later.follow (later.start path) = .ok (parent ++ [name]) := by
    rw [areNames, List.foldlM_append, start, bind_of_ok (written.foldlM_follow isParent),
      List.foldlM_cons, bind_of_ok last]
    rfl
  rw [FileSystem.find, bind_of_ok isPath, bind_of_ok leads, written.holds, isFile]
  rfl

end Written

/-- The bytes of a text encode it. -/
theorem decodeText_toUTF8 (text : String) : decodeText text.toUTF8 = .ok text := by
  have decoded : String.fromUTF8? text.toUTF8 = some text := by
    have valid : text.toUTF8.IsValidUTF8 := text.isValidUTF8
    unfold String.fromUTF8?
    rw [dif_pos valid]
    rfl
  rw [decodeText, decoded]

end FileSystem

/-- Settings that have been loaded have been checked. -/
theorem Settings.checked_of_ofToml {text : String} {settings : Settings}
    (loaded : ofToml text = .ok settings) : settings.checked = .ok settings := by
  unfold ofToml at loaded
  split at loaded
  · obtain rfl := eq_of_checked loaded
    exact loaded
  · cases loaded

theorem FileSystem.checked_of_settingsFor {system : FileSystem} {configured : Option String}
    {settings : Settings} (chosen : system.settingsFor configured = .ok settings) :
    settings.checked = .ok settings := by
  have checked_of_settingsOf {path : String} (loaded : system.settingsOf path = .ok settings) :
      settings.checked = .ok settings := by
    unfold settingsOf at loaded
    split at loaded
    · exact Settings.checked_of_ofToml loaded
    · cases loaded
  cases configured with
  | some path => exact checked_of_settingsOf chosen
  | none =>
      rw [settingsFor] at chosen
      split at chosen
      · exact checked_of_settingsOf chosen
      · cases chosen
        rfl

/-- The structure of a lowered module is sound. -/
theorem Session.problems_of_lower {session later : Session} {program : Block} {module : Ir.Module}
    (lowered : session.lower program = (.ok module, later)) : module.problems = [] := by
  obtain ⟨compiled⟩ := Lowering.toModule_inv (congrArg Prod.fst lowered)
  apply Ir.Module.problems_eq_nil
  intro function member
  obtain ⟨definition, ⟨origin⟩⟩ := compiled.origin_of_mem member
  exact origin.complete

namespace CommandLine

/-- All that has to go well for the program in a file to be lowered. -/
structure Lowered (system : FileSystem) (input : String) (configured : Option String) where
  settings : Settings
  text : String
  program : Block
  session : Session
  module : Ir.Module
  isSettings : system.settingsFor configured = .ok settings
  isText : system.textOf input = .ok text
  isProgram : Block.read text = .ok program
  isSession : Session.create settings = .ok session
  isModule : (session.lower program).1 = .ok module

/-! ## Steps of a command -/

namespace Action

variable {α β ε : Type}

/-- What a step gives, and the files after it. -/
def after (action : Action (StateM FileSystem) α) (system : FileSystem) :
    Except Failure α × FileSystem :=
  action.run.run system

theorem after_bind (action : Action (StateM FileSystem) α)
    (next : α → Action (StateM FileSystem) β) (system : FileSystem) :
    after (action >>= next) system =
      match after action system with
      | (.ok result, later) => after (next result) later
      | (.error failure, later) => (.error failure, later) := by
  change (ExceptT.bindCont (m := StateM FileSystem) next (action system).1) (action system).2 = _
  unfold after ExceptT.run StateT.run
  cases action system with
  | mk outcome later => cases outcome <;> rfl

/-- What follows a step that succeeds goes on where the step has ended. -/
theorem after_bind_ok {action : Action (StateM FileSystem) α} {next : α → Action (StateM FileSystem) β}
    {system later : FileSystem} {result : α} (gives : after action system = (.ok result, later)) :
    after (action >>= next) system = after (next result) later := by
  rw [after_bind, gives]

/-- What follows a step that fails is never reached. -/
theorem after_bind_error {action : Action (StateM FileSystem) α}
    {next : α → Action (StateM FileSystem) β} {system later : FileSystem} {failure : Failure}
    (fails : after action system = (.error failure, later)) :
    after (action >>= next) system = (.error failure, later) := by
  rw [after_bind, fails]

variable {what : String} {causes : ε → List String} {step : StateM FileSystem (Except ε α)}
  {system later : FileSystem}

theorem after_orFail_pure (outcome : Except ε α) :
    after (orFail what causes (pure outcome)) system =
      (outcome.mapError fun fault => ⟨what, causes fault⟩, system) :=
  rfl

theorem after_orFail_ok {result : α} (gives : step.run system = (.ok result, later)) :
    after (orFail what causes step) system = (.ok result, later) := by
  change ((step.run system).1.mapError _, (step.run system).2) = _
  rw [gives]
  rfl

theorem after_orFail_error {fault : ε} (gives : step.run system = (.error fault, later)) :
    after (orFail what causes step) system = (.error ⟨what, causes fault⟩, later) := by
  change ((step.run system).1.mapError _, (step.run system).2) = _
  rw [gives]
  rfl

end Action

open CommandLine.Action

variable {system : FileSystem} {input : String} {configured output : Option String} {noValidate : Bool}

theorem run_readText (system : FileSystem) (path : String) :
    (FileSystem.access.readText path).run system = (system.textOf path, system) :=
  rfl

theorem run_write (system : FileSystem) (path text : String) :
    (FileSystem.access.write path text).run system =
      match system.placeOf path with
      | .ok place => (.ok (), system.insert place text.toUTF8)
      | .error fault => (.error fault, system) := by
  change StateT.run (match system.placeOf path with | .ok place => _ | .error fault => _) system = _
  cases system.placeOf path <;> rfl

theorem run_load (system : FileSystem) (path : String) :
    (Settings.load FileSystem.access path).run system = (system.settingsOf path, system) := by
  rw [Settings.load, StateT.run_bind, run_readText, FileSystem.settingsOf]
  cases system.textOf path <;> rfl

/-- Settings are found, or a failure is reported. -/
theorem after_loadSettings (system : FileSystem) (configured : Option String) :
    after (loadSettings FileSystem.access configured) system =
      ((system.settingsFor configured).mapError fun fault =>
        ⟨s!"failed to load config {configured.getD Settings.fileName}", fault.messages⟩, system) := by
  have after_loadSettingsFrom (path : String) :
      after (loadSettingsFrom FileSystem.access path) system =
        ((system.settingsOf path).mapError fun fault =>
          ⟨s!"failed to load config {path}", fault.messages⟩, system) := by
    change (((Settings.load FileSystem.access path).run system).1.mapError _,
      ((Settings.load FileSystem.access path).run system).2) = _
    rw [run_load]
  cases configured with
  | some path => exact after_loadSettingsFrom path
  | none =>
      rw [loadSettings, after_bind]
      change after (if (system.find Settings.fileName).isOk then _ else _) system = _
      rw [FileSystem.settingsFor]
      cases (system.find Settings.fileName).isOk with
      | true => exact after_loadSettingsFrom Settings.fileName
      | false => rfl

theorem after_openSession (settings : Settings) (system : FileSystem) :
    after (openSession settings) system =
      ((Session.create settings).mapError fun fault => ⟨fault.message, []⟩, system) := by
  rw [openSession]
  cases Session.create settings <;> rfl

/-- What becomes of a module: it is the output, or it is written to a file. -/
def delivery (system : FileSystem) (module : Ir.Module) :
    Option String → Except Failure String × FileSystem
  | none => (.ok module.text, system)
  | some path =>
    match system.placeOf path with
    | .ok place => (.ok "", system.insert place module.text.toUTF8)
    | .error fault => (.error ⟨s!"failed to write {path}", [fault.message]⟩, system)

/-- A module that has been lowered is delivered, whether or not its structure is checked first. -/
theorem after_runLower (lowered : Lowered system input configured) :
    after (runLower FileSystem.access input configured output noValidate) system =
      delivery system lowered.module output := by
  have sound := Session.problems_of_lower (Prod.ext lowered.isModule rfl)
  have settings : after (loadSettings FileSystem.access configured) system =
      (.ok lowered.settings, system) := by
    rw [after_loadSettings, lowered.isSettings]
    rfl
  have text : (FileSystem.access.readText input).run system = (.ok lowered.text, system) := by
    rw [run_readText, lowered.isText]
  have opens := after_openSession lowered.settings system
  rw [lowered.isSession] at opens
  have delivers : after (match output with
      | some path => do
        orFail s!"failed to write {path}" (fun fault => [FileFault.message fault])
          (FileSystem.access.write path lowered.module.text)
        return ""
      | none => return lowered.module.text) system = delivery system lowered.module output := by
    cases output with
    | none => rfl
    | some path =>
        have writes := run_write system path lowered.module.text
        rw [delivery]
        cases isPlace : system.placeOf path with
        | ok place =>
            rw [isPlace] at writes
            exact after_bind_ok (after_orFail_ok writes)
        | error fault =>
            rw [isPlace] at writes
            exact after_bind_error (after_orFail_error writes)
  rw [runLower, after_bind_ok settings, after_bind_ok (after_orFail_ok text), lowered.isProgram,
    after_bind_ok (after_orFail_pure (.ok _)), after_bind_ok opens, lowered.isModule,
    after_bind_ok (after_orFail_pure (.ok _))]
  dsimp only
  split
  · rw [if_neg fun differs => differs sound]
    exact delivers
  · exact delivers

/-- Where there is nothing to deliver, nothing is written. -/
theorem after_runLower_of_fails (fails : ¬ Nonempty (Lowered system input configured))
    (output : Option String) (noValidate : Bool) :
    ∃ failure, after (runLower FileSystem.access input configured output noValidate) system =
      (.error failure, system) := by
  have loads := after_loadSettings system configured
  have reads := run_readText system input
  rw [runLower]
  cases isSettings : system.settingsFor configured with
  | error fault =>
      rw [isSettings] at loads
      exact ⟨_, after_bind_error loads⟩
  | ok settings =>
  rw [isSettings] at loads
  rw [after_bind_ok loads]
  cases isText : system.textOf input with
  | error fault =>
      rw [isText] at reads
      exact ⟨_, after_bind_error (after_orFail_error reads)⟩
  | ok text =>
  rw [isText] at reads
  rw [after_bind_ok (after_orFail_ok reads)]
  cases isProgram : Block.read text with
  | error refusal => exact ⟨_, after_bind_error (after_orFail_pure (.error refusal))⟩
  | ok program =>
  rw [after_bind_ok (after_orFail_pure (.ok program))]
  have opens := after_openSession settings system
  cases isSession : Session.create settings with
  | error fault =>
      rw [isSession] at opens
      exact ⟨_, after_bind_error opens⟩
  | ok session =>
  rw [isSession] at opens
  rw [after_bind_ok opens]
  cases isModule : (session.lower program).1 with
  | error error => exact ⟨_, after_bind_error (after_orFail_pure (.error error))⟩
  | ok module =>
  exact absurd ⟨settings, text, program, session, module, isSettings, isText, isProgram, isSession,
    isModule⟩ fails

/-! ## Whole runs -/

/-- A run on files in memory. -/
def runOn (system : FileSystem) (arguments : List String) : Report × FileSystem :=
  Id.run ((run FileSystem.access arguments).run system)

variable {arguments : List String}

theorem runOn_eq (asked : Request.ofArguments arguments = .ok (.lower input configured output noValidate))
    (system : FileSystem) :
    runOn system arguments =
      match after (runLower FileSystem.access input configured output noValidate) system with
      | (.ok text, later) => (⟨0, text, ""⟩, later)
      | (.error failure, later) => (⟨1, "", failure.message⟩, later) := by
  rw [runOn, run, asked]
  change Id.run (StateT.run ((perform FileSystem.access _).run >>= _) system) = _
  rw [StateT.run_bind, perform, after]
  cases StateT.run (ExceptT.run (runLower FileSystem.access input configured output noValidate)) system with
  | mk outcome later => cases outcome <;> rfl

/-- Whether a module can be written where it belongs. -/
def Deliverable (system : FileSystem) (output : Option String) : Prop :=
  ∀ path ∈ output, ∃ place, system.placeOf path = .ok place

/-- A module is the output where no file is named for it. Otherwise there is no output, the file holds the
module and is the only one that has been written, and to read it gives the text of the module. -/
def Delivered (system : FileSystem) (output : Option String) (module : Ir.Module) (report : Report)
    (later : FileSystem) : Prop :=
  match output with
  | none => report.output = module.text ∧ later = system
  | some path => report.output = "" ∧ later.textOf path = .ok module.text ∧
      ∃ place, system.placeOf path = .ok place ∧ system.Written place module.text.toUTF8 later

/-- A run either delivers a module, or it fails and leaves nothing behind. -/
structure AllOrNothing (system : FileSystem) (input : String) (configured output : Option String)
    (report : Report) (later : FileSystem) : Prop where
  success_iff : report.exitCode = 0 ↔
    Nonempty (Lowered system input configured) ∧ Deliverable system output
  delivered : report.exitCode = 0 →
    ∃ lowered : Lowered system input configured, Delivered system output lowered.module report later
  failed : report.exitCode ≠ 0 → report.exitCode = 1 ∧ report.output = "" ∧ later = system

theorem allOrNothing_of_failure (failure : Failure)
    (fails : ¬ (Nonempty (Lowered system input configured) ∧ Deliverable system output)) :
    AllOrNothing system input configured output ⟨1, "", failure.message⟩ system where
  success_iff := by simp [fails]
  delivered := fun impossible => by cases impossible
  failed := fun _ => ⟨rfl, rfl, rfl⟩

theorem allOrNothing_of_delivered (lowered : Lowered system input configured) {text : String}
    {later : FileSystem} (deliverable : Deliverable system output)
    (delivered : Delivered system output lowered.module ⟨0, text, ""⟩ later) :
    AllOrNothing system input configured output ⟨0, text, ""⟩ later where
  success_iff := by simp [deliverable, Nonempty.intro lowered]
  delivered := fun _ => ⟨lowered, delivered⟩
  failed := fun impossible => absurd rfl impossible

/-- Where a module can be written, it is delivered to the file. -/
theorem delivered_insert {path : String} {place : Place} (isPlace : system.placeOf path = .ok place)
    (module : Ir.Module) :
    Delivered system (some path) module ⟨0, "", ""⟩ (system.insert place module.text.toUTF8) := by
  have written := system.written_insert place module.text.toUTF8
  refine ⟨rfl, ?_, place, isPlace, written⟩
  rw [FileSystem.textOf, written.find isPlace]
  exact FileSystem.decodeText_toUTF8 module.text

theorem allOrNothing_runOn
    (asked : Request.ofArguments arguments = .ok (.lower input configured output noValidate))
    (system : FileSystem) :
    AllOrNothing system input configured output (runOn system arguments).1
      (runOn system arguments).2 := by
  rw [runOn_eq asked]
  by_cases can : Nonempty (Lowered system input configured)
  · obtain ⟨lowered⟩ := can
    rw [after_runLower lowered]
    cases output with
    | none => exact allOrNothing_of_delivered lowered (by simp [Deliverable]) ⟨rfl, rfl⟩
    | some path =>
        rw [delivery]
        cases isPlace : system.placeOf path with
        | ok place =>
            refine allOrNothing_of_delivered lowered ?_ (delivered_insert isPlace lowered.module)
            rintro _ ⟨⟩
            exact ⟨place, isPlace⟩
        | error fault =>
            refine allOrNothing_of_failure _ fun ⟨_, deliverable⟩ => ?_
            obtain ⟨place, also⟩ := deliverable path rfl
            cases isPlace.symm.trans also
  · obtain ⟨failure, fails⟩ := after_runLower_of_fails can output noValidate
    rw [fails]
    exact allOrNothing_of_failure failure fun ⟨possible, _⟩ => can possible

end CommandLine

end YulLowering
