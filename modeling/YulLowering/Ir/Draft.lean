import YulLowering.Ir.Function

/-!
# Functions under construction

A draft is a function with a cursor on one of its blocks. Instructions go to the end of the block
under the cursor, reservations of slots to the entry block wherever the cursor stands. A cursor may
be set to a number that no block has; writing there changes no block.
-/

namespace YulLowering.Ir

/-- A function and the block that is being written. -/
structure Draft where
  function : Function
  cursor : BlockId
deriving DecidableEq, Repr, Inhabited

namespace Draft

/-- Start writing a function: a new block, labelled `entry`, becomes its entry and takes the
cursor. -/
def start (function : Function) : Draft :=
  let (entry, function) := function.pushBlock (some "entry")
  { function := { function with entry := entry }, cursor := entry }

/-- Add a labelled block; the cursor stays. -/
def newBlock (draft : Draft) (label : String) : BlockId × Draft :=
  let (id, function) := draft.function.pushBlock (some label)
  (id, { draft with function := function })

/-- Move the cursor. -/
def moveTo (draft : Draft) (block : BlockId) : Draft :=
  { draft with cursor := block }

/-- Whether the block under the cursor has been closed. -/
def isClosed (draft : Draft) : Bool :=
  match draft.function.block? draft.cursor with
  | some block => block.isClosed
  | none => false

/-- Write an instruction under the cursor. -/
def emit (draft : Draft) (instruction : Instruction) : Draft :=
  { draft with
    function := draft.function.modifyBlock draft.cursor fun block => block.append instruction }

/-- Close the block under the cursor. -/
def close (draft : Draft) (terminator : Terminator) : Draft :=
  { draft with
    function := draft.function.modifyBlock draft.cursor fun block => block.close terminator }

/-- Number a value without writing anything. -/
def freshValue (draft : Draft) (type : ValueType) : Value × Draft :=
  let (value, function) := draft.function.freshValue type
  (value, { draft with function := function })

/-- Write the instruction that defines a new value. -/
def define (draft : Draft) (type : ValueType) (instruction : Value → Instruction) :
    Value × Draft :=
  let (value, draft) := draft.freshValue type
  (value, draft.emit (instruction value))

/-- Write a constant. -/
def const (draft : Draft) (type : ValueType) (constant : Nat) : Value × Draft :=
  draft.define type fun dest => .const dest constant

/-- Read a slot. -/
def load (draft : Draft) (slot : Slot) (type : ValueType) : Value × Draft :=
  draft.define type fun dest => .load dest slot

/-- Write a slot. -/
def store (draft : Draft) (slot : Slot) (value : Value) : Draft :=
  draft.emit (.store slot value)

/-- Declare a local slot and reserve it in the entry block. -/
def reserve (draft : Draft) (name : String) (type : ValueType) : LocalId × Draft :=
  let (slot, function) := draft.function.pushLocal name type
  let reserved := function.modifyBlock function.entry fun block => block.append (.reserve slot type)
  (slot, { draft with function := reserved })

/-- Write a call. It has a result unless its return type is `void`. -/
def call (draft : Draft) (callee : Callee) (arguments : List Value) (resultType : ValueType) :
    Option Value × Draft :=
  if resultType.isVoid then
    (none, draft.emit (.call none callee arguments))
  else
    let (value, draft) :=
      draft.define resultType fun dest => .call (some dest) callee arguments
    (some value, draft)

/-- Turn a value into a condition: a value of the type of conditions is one already, any other is
compared with zero. -/
def toCondition (draft : Draft) (operand : Value) : Value × Draft :=
  if operand.type.isBool then (operand, draft)
  else draft.define .bool fun dest => .testNonZero dest operand

/-- Close the block under the cursor with a jump. -/
def jump (draft : Draft) (target : BlockId) : Draft :=
  draft.close (.jump target)

/-- Jump unless the block under the cursor has been closed already. -/
def fallThrough (draft : Draft) (target : BlockId) : Draft :=
  if draft.isClosed then draft else draft.jump target

end Draft

end YulLowering.Ir
