import YulLowering.Ir.Instruction

/-!
# Builtins

A builtin is an operation the target provides. Its descriptor gives the types of its parameters and
results by name and says what a call to it can do.
-/

namespace YulLowering

/-- The descriptor of a builtin. -/
structure Builtin where
  name : String
  /-- Type names of the parameters; an empty one takes the default type. -/
  parameters : List String
  results : List String
  /-- Calls may be reordered, or removed when their result is unused. -/
  movable : Bool
  sideEffectFree : Bool
  sideEffectFreeIfNoMsize : Bool
  isMsize : Bool
  invalidatesStorage : Bool
  invalidatesMemory : Bool
  /-- Every argument must be a literal. -/
  literalArguments : Bool
deriving DecidableEq, Repr, Inhabited

namespace Builtin

/-- A builtin of which only movability is known: a movable one is free of side effects, any other
may change storage and memory. -/
def ofMovability (name : String) (parameters results : List String)
    (movable literalArguments : Bool) : Builtin where
  name := name
  parameters := parameters
  results := results
  movable := movable
  sideEffectFree := movable
  sideEffectFreeIfNoMsize := movable
  isMsize := false
  invalidatesStorage := !movable
  invalidatesMemory := !movable
  literalArguments := literalArguments

/-- Like `ofMovability`, with untyped parameters and results given by their number. -/
def untyped (name : String) (parameterCount resultCount : Nat) (movable literalArguments : Bool) :
    Builtin :=
  ofMovability name (List.replicate parameterCount "") (List.replicate resultCount "") movable
    literalArguments

/-- What a call to the builtin carries into the lowered module. -/
def effects (builtin : Builtin) : Ir.Effects where
  movable := builtin.movable
  sideEffectFree := builtin.sideEffectFree
  sideEffectFreeIfNoMsize := builtin.sideEffectFreeIfNoMsize
  invalidatesStorage := builtin.invalidatesStorage
  invalidatesMemory := builtin.invalidatesMemory

end Builtin

end YulLowering
