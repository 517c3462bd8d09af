import YulLowering.Ir.Value

/-!
# Instructions and terminators

A basic block is a run of instructions, each with at most one result, closed by one terminator that
says where control goes next.
-/

namespace YulLowering.Ir

/-- What a later pass may assume about a call to a builtin. -/
structure Effects where
  movable : Bool
  sideEffectFree : Bool
  sideEffectFreeIfNoMsize : Bool
  invalidatesStorage : Bool
  invalidatesMemory : Bool
deriving DecidableEq, Repr, Inhabited

/-- A function of the module, by position. -/
structure FunctionId where
  index : Nat
deriving DecidableEq, Repr, Inhabited

/-- A block of one function, by position. -/
structure BlockId where
  index : Nat
deriving DecidableEq, Repr, Inhabited

/-- What a call calls. -/
inductive Callee where
  /-- A builtin, which the module declares as an external. -/
  | builtin (name : String) (effects : Effects)
  | function (id : FunctionId)
deriving DecidableEq, Repr, Inhabited

/-- Straight-line instructions. -/
inductive Instruction where
  | const (dest : Value) (constant : Nat)
  /-- Reserves a local slot. -/
  | reserve (slot : LocalId) (type : ValueType)
  | load (dest : Value) (slot : Slot)
  | store (slot : Slot) (value : Value)
  | call (dest : Option Value) (callee : Callee) (arguments : List Value)
  /-- One if the operand differs from zero, else zero. -/
  | testNonZero (dest operand : Value)
deriving DecidableEq, Repr, Inhabited

namespace Instruction

/-- The value an instruction defines, if any. -/
def dest? : Instruction → Option Value
  | const dest _ | load dest _ | testNonZero dest _ => some dest
  | call dest _ _ => dest
  | reserve _ _ | store _ _ => none

/-- Whether removing the instruction could be observed. A call to a function of the module always
counts; a call to a builtin counts unless the builtin is free of side effects. -/
def isObservable : Instruction → Bool
  | store _ _ => true
  | call _ (.builtin _ effects) _ => !effects.sideEffectFree
  | call _ (.function _) _ => true
  | const _ _ | reserve _ _ | load _ _ | testNonZero _ _ => false

/-- Whether the instruction stores to a slot. -/
def storesTo (instruction : Instruction) (slot : Slot) : Bool :=
  match instruction with
  | store target _ => target == slot
  | _ => false

end Instruction

/-- How a block ends. -/
inductive Terminator where
  | jump (target : BlockId)
  | branch (condition : Value) (onTrue onFalse : BlockId)
  | switch (scrutinee : Value) (cases : List (Nat × BlockId)) (default : BlockId)
  | ret (value : Option Value)
  /-- Stands in every new block until the block is closed. -/
  | unreachable
deriving DecidableEq, Repr, Inhabited

namespace Terminator

/-- The blocks control may enter next, a switch's default last. -/
def successors : Terminator → List BlockId
  | jump target => [target]
  | branch _ onTrue onFalse => [onTrue, onFalse]
  | switch _ cases default => cases.map Prod.snd ++ [default]
  | ret _ | unreachable => []

/-- Whether this is more than the mark of a block that is still open. -/
def isSet (terminator : Terminator) : Bool :=
  terminator != unreachable

end Terminator

end YulLowering.Ir
