import YulLowering.Syntax

/-!
# What can go wrong in lowering

Each way a program can be refused is a constructor of its own; the wording stands apart from it. A
fault met inside a function is reported together with the function's name.
-/

namespace YulLowering.Lowering

/-- Parts of the language that the back end does not take. -/
inductive Construct where
  /-- A statement other than a function definition at the top level. -/
  | topLevel (kind : Statement.Kind)
  /-- A statement of a looser flavour. -/
  | statement (kind : Statement.Kind)
  /-- A raw instruction, with or without arguments. -/
  | instruction (mnemonic : String)
  /-- A builtin with several results, which it would have no place to leave. -/
  | severalResults (builtin : String) (count : Nat)
deriving DecidableEq, Repr, Inhabited

/-- The words for an unsupported construct. -/
def Construct.words : Construct → String
  | topLevel kind => s!"top-level {kind.words}"
  | statement kind => kind.words
  | instruction mnemonic => s!"instruction '{mnemonic}'"
  | severalResults builtin count => s!"builtin '{builtin}' with {count} return values"

/-- The statements that leave an iteration of a loop. -/
inductive LoopExit where
  | breakLoop
  | continueLoop
deriving DecidableEq, Repr, Inhabited

/-- The keyword of a loop exit. -/
def LoopExit.keyword : LoopExit → String
  | breakLoop => "break"
  | continueLoop => "continue"

/-- Reasons for which a program is refused. -/
inductive Fault where
  | unknownType (name : String)
  | unsupported (construct : Construct)
  | nestedDefinition (name : String)
  | outsideLoop (exit : LoopExit)
  | argumentNotLiteral (builtin : String) (index : Nat)
  | undeclaredName (name : String)
  | badLiteral (spelling : String)
  | arity (expected found : Nat)
deriving DecidableEq, Repr, Inhabited

/-- The words for a fault. -/
def Fault.message : Fault → String
  | unknownType name => s!"Unknown type: {name}"
  | unsupported construct => s!"Unsupported construct: {construct.words}"
  | nestedDefinition name =>
    s!"Function definition '{name}' is only allowed at the top level"
  | outsideLoop exit => s!"'{exit.keyword}' outside of a loop"
  | argumentNotLiteral builtin index =>
    s!"Argument {index} of builtin '{builtin}' must be a literal"
  | undeclaredName name => s!"Unresolved name: {name}"
  | badLiteral spelling => s!"Invalid literal: {spelling}"
  | arity expected found => s!"Expected {expected} value(s), found {found}"

/-- A fault with the function it was met in, if it was met in one. -/
structure Error where
  function : Option String
  fault : Fault
deriving DecidableEq, Repr, Inhabited

namespace Error

/-- The words for an error, naming the function first. -/
def message (error : Error) : String :=
  match error.function with
  | some function => s!"In function '{function}': {error.fault.message}"
  | none => error.fault.message

/-- The messages from the outside in: the whole one, then the fault by itself if the whole one says
more. -/
def messages (error : Error) : List String :=
  match error.function with
  | some _ => [error.message, error.fault.message]
  | none => [error.message]

end Error

end YulLowering.Lowering
