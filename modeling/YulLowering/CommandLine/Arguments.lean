/-!
# Command line arguments

The arguments of the program and of its two commands. Options that set how much is logged may stand
before the command and after it; in either place each but `--verbose` may stand once. An option
takes its value from the next argument, or attached to it: after `=`, or, for a one-letter option,
directly. After `--` everything is an operand. Arguments are judged from left to right, and help or
the version is given as soon as it is asked for, if nothing before it is wrong. Only a value in front
of the command is judged after the command's own arguments.
-/

namespace YulLowering.CommandLine

/-- What the program is asked to do. -/
inductive Request where
  /-- Lower the program in a file. -/
  | lower (input : String) (settings output : Option String) (noValidate : Bool)
  /-- List the builtins of the dialect. -/
  | builtins (settings : Option String)
  | version
  | help
deriving DecidableEq, Repr, Inhabited

/-- Why arguments are refused. -/
inductive UsageFault where
  | missingCommand
  | unknownCommand (name : String)
  | unknownOption (option : String)
  | missingValue (option : String)
  | unexpectedValue (option : String)
  | invalidValue (option value : String)
  | repeatedOption (option : String)
  | missingOperand
  | unexpectedOperand (operand : String)
deriving DecidableEq, Repr, Inhabited

/-- The words for why arguments are refused. -/
def UsageFault.message : UsageFault → String
  | missingCommand => "a command is required: lower or builtins"
  | unknownCommand name => s!"unrecognized command '{name}'"
  | unknownOption option => s!"unexpected argument '{option}'"
  | missingValue option => s!"a value is required for '--{option}'"
  | unexpectedValue option => s!"'--{option}' takes no value"
  | invalidValue option value => s!"invalid value '{value}' for '--{option}'"
  | repeatedOption option => s!"'--{option}' cannot be used several times"
  | missingOperand => "an input file is required"
  | unexpectedOperand operand => s!"unexpected argument '{operand}'"

/-- How an option is used. -/
inductive Usage where
  /-- May stand any number of times. -/
  | counted
  /-- May stand once. -/
  | switch
  /-- May stand once, with a value that a test accepts. -/
  | valued (accepts : String → Bool)
  /-- Ends the reading of arguments: what is asked for is something else. -/
  | ends (request : Request)

/-- An option. -/
structure OptionSpec where
  name : String
  letter : Option Char
  usage : Usage

/-- The words for how much is logged. -/
def logLevels : List String :=
  ["error", "warn", "info", "debug", "trace"]

/-- The options that may stand before the command and after it. -/
def commonOptions : List OptionSpec :=
  [⟨"verbose", some 'v', .counted⟩, ⟨"quiet", some 'q', .switch⟩,
    ⟨"log-level", none, .valued logLevels.contains⟩, ⟨"help", some 'h', .ends .help⟩]

/-- The options before the command. -/
def programOptions : List OptionSpec :=
  commonOptions ++ [⟨"version", some 'V', .ends .version⟩]

/-- An option whose value is a path. -/
def pathOption (name : String) (letter : Char) : OptionSpec :=
  ⟨name, some letter, .valued fun path => !path.isEmpty⟩

/-- The options of the command that lists builtins. -/
def builtinsOptions : List OptionSpec :=
  commonOptions ++ [pathOption "config" 'c']

/-- The options of the command that lowers a program. -/
def lowerOptions : List OptionSpec :=
  commonOptions ++
    [pathOption "config" 'c', pathOption "output" 'o', ⟨"no-validate", none, .switch⟩]

/-- What has been read of the arguments of a command. -/
structure Given where
  /-- The options that have been given, with their values. -/
  options : List (String × String)
  operands : List String
deriving DecidableEq, Repr, Inhabited

namespace Given

/-- Nothing has been given. -/
def nothing : Given :=
  ⟨[], []⟩

/-- Whether an option has been given. -/
def has (given : Given) (option : String) : Bool :=
  given.options.any fun (name, _) => name == option

/-- The value of an option. -/
def value? (given : Given) (option : String) : Option String :=
  given.options.lookup option

/-- Give an option that may stand once. -/
def once (given : Given) (option value : String) : Except UsageFault Given :=
  if given.has option then .error (.repeatedOption option)
  else .ok { given with options := (option, value) :: given.options }

end Given

/-- What comes of reading one argument. -/
inductive Outcome where
  | goesOn (given : Given)
  /-- The next argument is the value of an option. -/
  | awaits (option : OptionSpec) (given : Given)
  | ends (request : Request)

namespace OptionSpec

/-- Give an option a value. -/
def assign (option : OptionSpec) (value : String) (given : Given) : Except UsageFault Given :=
  match option.usage with
  | .valued accepts =>
    if accepts value then given.once option.name value
    else .error (.invalidValue option.name value)
  | _ => .error (.unexpectedValue option.name)

/-- Read an option that stands without a value of its own. -/
def read (option : OptionSpec) (given : Given) : Except UsageFault Outcome :=
  match option.usage with
  | .counted => .ok (.goesOn given)
  | .switch => (given.once option.name "").map .goesOn
  | .valued _ => .ok (.awaits option given)
  | .ends request => .ok (.ends request)

end OptionSpec

/-- Read an option that is written out, with what follows `=` if that is there. -/
def readLong (options : List OptionSpec) (written : String) (value : Option String)
    (given : Given) : Except UsageFault Outcome :=
  match options.find? fun option => option.name == written, value with
  | none, _ => .error (.unknownOption written)
  | some option, some value => (option.assign value given).map .goesOn
  | some option, none => option.read given

/-- Read one-letter options that are written together. What follows an option with a value is that
value. -/
def readLetters (options : List OptionSpec) (given : Given) :
    List Char → Except UsageFault Outcome
  | [] => .ok (.goesOn given)
  | letter :: rest => do
    let some option := options.find? fun option => option.letter == some letter
      | throw (.unknownOption (String.ofList [letter]))
    match option.usage, rest with
    | .valued _, '=' :: value => return .goesOn (← option.assign (String.ofList value) given)
    | .valued _, _ :: _ => return .goesOn (← option.assign (String.ofList rest) given)
    | _, _ =>
      match ← option.read given with
      | .goesOn given => readLetters options given rest
      | outcome => return outcome

/-- Split at the first `=`. -/
def splitValue (characters : List Char) : String × Option String :=
  match characters.dropWhile fun character => character != '=' with
  | _ :: value =>
    (String.ofList (characters.takeWhile fun character => character != '='),
      some (String.ofList value))
  | [] => (String.ofList characters, none)

/-- The kinds of argument, by how they are written. -/
inductive Written where
  | separator
  | long (name : String) (value : Option String)
  | letters (letters : List Char)
  | operand (text : String)

/-- Tell how an argument is written. A single hyphen is an operand. -/
def Written.ofString (argument : String) : Written :=
  match argument.toList with
  | ['-', '-'] => .separator
  | '-' :: '-' :: rest =>
    let (name, value) := splitValue rest
    .long name value
  | '-' :: letter :: rest => .letters (letter :: rest)
  | _ => .operand argument

/-- Take operands, of which there may be a number. An empty one is as good as none. -/
def takeOperands (limit : Nat) (given : Given) (operands : List String) :
    Except UsageFault Given :=
  match operands.drop (limit - given.operands.length) with
  | [] =>
    if operands.contains "" then .error .missingOperand
    else .ok { given with operands := given.operands ++ operands }
  | operand :: _ => .error (.unexpectedOperand operand)

/-- The operands that are taken are not too many. -/
theorem length_le_of_takeOperands {limit : Nat} {given taken : Given} {operands : List String}
    (within : given.operands.length ≤ limit)
    (took : takeOperands limit given operands = .ok taken) : taken.operands.length ≤ limit := by
  unfold takeOperands at took
  split at took
  next none_left =>
    rw [List.drop_eq_nil_iff] at none_left
    split at took
    · contradiction
    · obtain rfl := Except.ok.inj took
      simp only [List.length_append]
      omega
  next => contradiction

/-- Read the arguments of a command. `awaiting` is an option that has to get its value first. -/
def readCommand (options : List OptionSpec) (limit : Nat) (awaiting : Option OptionSpec)
    (given : Given) : List String → Except UsageFault (Given ⊕ Request)
  | [] =>
    match awaiting with
    | some option => .error (.missingValue option.name)
    | none => .ok (.inl given)
  | argument :: rest =>
    match awaiting, Written.ofString argument with
    | some option, .operand value => do
      readCommand options limit none (← option.assign value given) rest
    | some option, _ => .error (.missingValue option.name)
    | none, .separator => (takeOperands limit given rest).map .inl
    | none, .operand operand => do
      readCommand options limit none (← takeOperands limit given [operand]) rest
    | none, .long name value => do
      match ← readLong options name value given with
      | .goesOn given => readCommand options limit none given rest
      | .awaits option given => readCommand options limit (some option) given rest
      | .ends request => return .inr request
    | none, .letters letters => do
      match ← readLetters options given letters with
      | .goesOn given => readCommand options limit none given rest
      | .awaits option given => readCommand options limit (some option) given rest
      | .ends request => return .inr request

/-- Read the arguments of the command that lowers a program. -/
def readLower (arguments : List String) : Except UsageFault Request := do
  match ← readCommand lowerOptions 1 none .nothing arguments with
  | .inr request => return request
  | .inl given =>
    match given.operands with
    | [] => throw .missingOperand
    | input :: _ =>
      return .lower input (given.value? "config") (given.value? "output")
        (given.has "no-validate")

/-- Read the arguments of the command that lists builtins. -/
def readBuiltins (arguments : List String) : Except UsageFault Request := do
  match ← readCommand builtinsOptions 0 none .nothing arguments with
  | .inr request => return request
  | .inl given => return .builtins (given.value? "config")

/-- Read the arguments of a request for help, which may name a command. -/
def readHelp : List String → Except UsageFault Request
  | [] | ["lower"] | ["builtins"] | ["help"] => .ok .help
  | name :: _ => .error (.unknownCommand name)

/-- Read a command and its arguments. -/
def readRequest (command : String) (arguments : List String) : Except UsageFault Request :=
  match command with
  | "lower" => readLower arguments
  | "builtins" => readBuiltins arguments
  | "help" => readHelp arguments
  | _ => .error (.unknownCommand command)

/-- Read all arguments. `awaiting` is an option that has to get its value first, and `given` is a fault
once the last value has been a wrong one. The next option brings it to light, or the end of the
command that follows, unless that asks for help. -/
def readProgram (awaiting : Option OptionSpec) (given : Except UsageFault Given) :
    List String → Except UsageFault Request
  | [] =>
    match awaiting with
    | some option => .error (.missingValue option.name)
    | none => do
      let _ ← given
      throw .missingCommand
  | argument :: rest =>
    match awaiting, Written.ofString argument with
    | some option, .operand value => readProgram none (given >>= option.assign value) rest
    | some option, _ => .error (.missingValue option.name)
    | none, .separator =>
      match rest with
      | [] => .error .missingCommand
      | operand :: _ => .error (.unexpectedOperand operand)
    | none, .operand command => do
      let request ← readRequest command rest
      if request = .help then return request
      let _ ← given
      return request
    | none, .long name value => do
      match ← readLong programOptions name value (← given) with
      | .goesOn given => readProgram none (.ok given) rest
      | .awaits option given => readProgram (some option) (.ok given) rest
      | .ends request => return request
    | none, .letters letters => do
      match ← readLetters programOptions (← given) letters with
      | .goesOn given => readProgram none (.ok given) rest
      | .awaits option given => readProgram (some option) (.ok given) rest
      | .ends request => return request

/-- What the arguments of the program ask for. -/
def Request.ofArguments (arguments : List String) : Except UsageFault Request :=
  readProgram none (.ok .nothing) arguments

end YulLowering.CommandLine
