import YulLowering.CommandLine.Arguments
import YulLowering.Ir.Listing
import YulLowering.Ir.Validation
import YulLowering.Session
import YulLowering.Settings.Loading
import YulLowering.Syntax.Reader

/-!
# Commands

What the program does for a request, over any monad that provides files. A lowered program is
written in one piece, to a file or to the standard output, and only after every step has succeeded;
where one fails nothing is written and the report says what failed and why.
-/

namespace YulLowering.CommandLine

/-- What the program leaves behind, files aside. -/
structure Report where
  exitCode : Nat
  output : String
  diagnostics : String
deriving DecidableEq, Repr, Inhabited

/-- The name and the version of the program. -/
def versionLine : String := "yulir 0.1.0\n"

/-- A short description of the arguments. -/
def helpText : String :=
  String.join (["Usage: yulir [OPTIONS] <COMMAND>",
    "",
    "Commands:",
    "  lower <INPUT>  Lower a JSON syntax tree to IR",
    "  builtins       List the builtins of the configured dialect",
    "",
    "Options:",
    "  -v, --verbose            More logging",
    "  -q, --quiet              Only log errors",
    "      --log-level <LEVEL>  error, warn, info, debug or trace",
    "  -c, --config <CONFIG>    Configuration file",
    "  -o, --output <OUTPUT>    Write the IR here instead of stdout",
    "      --no-validate        Skip structural validation of the lowered module",
    "  -V, --version            Print version"].map fun line => line ++ "\n")

/-- A failure: what failed, and the causes behind it from the outside in. -/
structure Failure where
  what : String
  causes : List String
deriving DecidableEq, Repr, Inhabited

/-- A text whose lines after the first are moved to the right. -/
def hanging (margin text : String) : String :=
  ("\n" ++ margin).intercalate (text.splitOn "\n")

/-- The causes of a failure, numbered where there are several. -/
def causeLines : List String → String
  | [] => ""
  | [cause] => "\n\nCaused by:\n    " ++ hanging "    " cause
  | causes =>
    "\n\nCaused by:" ++ String.join (causes.zipIdx.map fun (cause, index) =>
      s!"\n    {index}: " ++ hanging "       " cause)

/-- The words for a failure. -/
def Failure.message (failure : Failure) : String :=
  s!"Error: {failure.what}" ++ causeLines failure.causes ++ "\n"

/-- Steps of a command. -/
abbrev Action (m : Type → Type) := ExceptT Failure m

variable {m : Type → Type} [Monad m]

/-- Go on with the result of a step, or fail and say what failed. -/
def orFail {ε α : Type} (what : String) (causes : ε → List String) (step : m (Except ε α)) :
    Action m α :=
  ExceptT.mk do return (← step).mapError fun fault => ⟨what, causes fault⟩

/-- The settings of a file. -/
def loadSettingsFrom (files : FileAccess m) (path : String) : Action m Settings :=
  orFail s!"failed to load config {path}" SettingsFault.messages (Settings.load files path)

/-- The settings for a command: those of the file that is named, else those of the directory, else
the standard ones. -/
def loadSettings (files : FileAccess m) (path : Option String) : Action m Settings := do
  match path with
  | some path => loadSettingsFrom files path
  | none =>
    if ← files.isFile Settings.fileName then loadSettingsFrom files Settings.fileName
    else return .standard

/-- The words for why a text is no program. -/
def refusalWords : Json.Refusal → String
  | .truncated => "the text ends too early"
  | .malformed => "the text is not JSON"
  | .mismatched => "the text is JSON of another shape"

/-- The session for a command. -/
def openSession (settings : Settings) : Action m Session :=
  match Session.create settings with
  | .ok session => pure session
  | .error fault => throw ⟨fault.message, []⟩

/-- Lower a program from a file; the result is the text that belongs on the standard output. -/
def runLower (files : FileAccess m) (input : String) (settings output : Option String)
    (noValidate : Bool) : Action m String := do
  let settings ← loadSettings files settings
  let source ← orFail s!"failed to read {input}" (fun fault => [FileFault.message fault])
    (files.readText input)
  let program ← orFail s!"{input} is not a valid syntax tree" (fun fault => [refusalWords fault])
    (pure (Block.read source))
  let session ← openSession settings
  let module ← orFail s!"failed to lower {input}" Lowering.Error.messages
    (pure (session.lower program).1)
  if settings.validate ∧ ¬ noValidate then
    if module.problems ≠ [] then
      throw ⟨"lowered module is malformed:\n  " ++ "\n  ".intercalate module.problems, []⟩
  match output with
  | some path =>
    orFail s!"failed to write {path}" (fun fault => [FileFault.message fault])
      (files.write path module.text)
    return ""
  | none => return module.text

/-- What is said of a builtin in the list of builtins. -/
def listed (defaultType : String) (builtin : Builtin) : String :=
  let typeList := fun names : List String =>
    Ir.commaSeparated (names.map fun name => if name.isEmpty then defaultType else name)
  let properties :=
    [(builtin.movable, "movable"), (builtin.sideEffectFree, "side-effect-free"),
      (builtin.invalidatesStorage, "invalidates-storage"),
      (builtin.invalidatesMemory, "invalidates-memory"),
      (builtin.literalArguments, "literal-arguments")]
  let held := " ".intercalate (properties.filterMap fun (holds, words) =>
    if holds then some words else none)
  s!"{builtin.name}({typeList builtin.parameters}) -> ({typeList builtin.results}) [{held}]"

/-- List the builtins of the dialect. -/
def runBuiltins (files : FileAccess m) (settings : Option String) : Action m String := do
  let settings ← loadSettings files settings
  let session ← openSession settings
  let dialect := session.dialect.1.dialect
  let lines := dialect.builtins.map fun builtin =>
    s!"  {listed settings.defaultType builtin}\n"
  return s!"{dialect.size} builtins ({dialect.flavour.text} flavour)\n" ++ String.join lines

/-- Do what is asked for. -/
def perform (files : FileAccess m) : Request → Action m String
  | .lower input settings output noValidate => runLower files input settings output noValidate
  | .builtins settings => runBuiltins files settings
  | .version => return versionLine
  | .help => return helpText

/-- Run the program. -/
def run (files : FileAccess m) (arguments : List String) : m Report := do
  match Request.ofArguments arguments with
  | .error fault => return ⟨2, "", s!"error: {fault.message}\n"⟩
  | .ok request =>
    match ← (perform files request).run with
    | .ok output => return ⟨0, output, ""⟩
    | .error failure => return ⟨1, "", failure.message⟩

end YulLowering.CommandLine
