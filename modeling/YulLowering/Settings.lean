import YulLowering.Dialect.Ethereum
import YulLowering.Files
import YulLowering.Lowering.Programs

/-!
# Settings

What a user can choose: the name of the lowered module, the type of what is untyped, whether to
check the structure of the result, and builtins beyond those of the target.
-/

namespace YulLowering

/-- A builtin that a user adds. -/
structure BuiltinSetting where
  name : String
  parameters : List String
  results : List String
  movable : Bool
  literalArguments : Bool
deriving DecidableEq, Repr, Inhabited

/-- What a user can choose. -/
structure Settings where
  moduleName : String
  defaultType : String
  validate : Bool
  builtins : List BuiltinSetting
deriving DecidableEq, Repr, Inhabited

/-- What is wrong with a builtin that a user adds. -/
inductive BuiltinFault where
  | emptyName
  | severalResults
  | unknownType (name : String)
deriving DecidableEq, Repr, Inhabited

/-- Why settings cannot be used. -/
inductive SettingsFault where
  /-- The file at a path cannot be read. -/
  | unreadable (path : String) (fault : FileFault)
  /-- The text is not one of settings. -/
  | malformed
  | badDefaultType (name : String)
  | badBuiltin (name : String) (fault : BuiltinFault)
deriving DecidableEq, Repr, Inhabited

/-- The words for what is wrong with a builtin. -/
def BuiltinFault.message : BuiltinFault → String
  | emptyName => "name cannot be empty"
  | severalResults => "builtins return at most one value"
  | unknownType name => s!"unknown type '{name}'"

namespace SettingsFault

/-- The words for why settings cannot be used. -/
def message : SettingsFault → String
  | unreadable path fault => s!"Failed to read {path}: {fault.message}"
  | malformed => "Invalid configuration: not a table of settings"
  | badDefaultType name => s!"Invalid default type '{name}'"
  | badBuiltin name fault => s!"Builtin '{name}': {fault.message}"

/-- The messages from the outside in. -/
def messages (fault : SettingsFault) : List String :=
  match fault with
  | unreadable _ cause => [fault.message, cause.message]
  | _ => [fault.message]

end SettingsFault

namespace BuiltinSetting

/-- The descriptor of a builtin that a user adds. -/
def descriptor (builtin : BuiltinSetting) : Builtin :=
  .ofMovability builtin.name builtin.parameters builtin.results builtin.movable
    builtin.literalArguments

/-- The first thing wrong with a builtin that a user adds. -/
def fault? (builtin : BuiltinSetting) : Option BuiltinFault :=
  if builtin.name.isEmpty then some .emptyName
  else if builtin.results.length > 1 then some .severalResults
  else
    ((builtin.parameters ++ builtin.results).find? fun name =>
      !Lowering.TypeNames.known name).map .unknownType

end BuiltinSetting

namespace Settings

/-- The file that holds the settings of a directory. -/
def fileName : String := "yulir.toml"

/-- What holds where a user chooses nothing. -/
def standard : Settings :=
  ⟨Lowering.standardModuleName, Lowering.TypeNames.defaultName, true, []⟩

/-- The first thing wrong with settings. -/
def fault? (settings : Settings) : Option SettingsFault :=
  if settings.defaultType.isEmpty ∨ ¬ Lowering.TypeNames.known settings.defaultType then
    some (.badDefaultType settings.defaultType)
  else
    settings.builtins.findSome? fun builtin =>
      builtin.fault?.map fun fault => .badBuiltin builtin.name fault

/-- Settings that can be used. -/
def checked (settings : Settings) : Except SettingsFault Settings :=
  match settings.fault? with
  | some fault => .error fault
  | none => .ok settings

/-- The meaning of type names under settings. -/
def types (settings : Settings) : Except SettingsFault Lowering.TypeNames :=
  (Lowering.TypeNames.ofDefaultName settings.defaultType).mapError fun _ =>
    .badDefaultType settings.defaultType

/-- The builtins of the target with those a user adds. One that has the name of a builtin of the
target takes its place. -/
def dialect (settings : Settings) : Dialect :=
  Dialect.Ethereum.dialect.registerAll (settings.builtins.map BuiltinSetting.descriptor)

end Settings

end YulLowering
