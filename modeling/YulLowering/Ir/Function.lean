import YulLowering.Ir.Instruction

/-!
# Functions

A function is a list of blocks and a list of local slots. Blocks and slots are numbered by their
position, values by a counter that only grows, so a number once given out keeps its meaning.
-/

namespace YulLowering.Ir

/-- Instructions that run in order, and the terminator after them. -/
structure BasicBlock where
  id : BlockId
  label : Option String
  instructions : List Instruction
  terminator : Terminator
deriving DecidableEq, Repr, Inhabited

namespace BasicBlock

/-- A block without instructions that is still open. -/
def empty (id : BlockId) (label : Option String) : BasicBlock :=
  ⟨id, label, [], .unreachable⟩

/-- Put an instruction at the end. -/
def append (block : BasicBlock) (instruction : Instruction) : BasicBlock :=
  { block with instructions := block.instructions ++ [instruction] }

/-- Close the block, or close it in another way. -/
def close (block : BasicBlock) (terminator : Terminator) : BasicBlock :=
  { block with terminator := terminator }

/-- The blocks control may enter after this one. -/
def successors (block : BasicBlock) : List BlockId :=
  block.terminator.successors

/-- Whether the block has been closed. -/
def isClosed (block : BasicBlock) : Bool :=
  block.terminator.isSet

end BasicBlock

/-- A function of the module. -/
structure Function where
  name : String
  parameters : List Value
  /-- The type of the value that is returned directly. -/
  resultType : ValueType
  /-- How many values the source function returns; those after the first go through module slots. -/
  resultCount : Nat
  locals : List LocalSlot
  blocks : List BasicBlock
  entry : BlockId
  /-- The number of the next value. -/
  valueSupply : Nat
deriving DecidableEq, Repr, Inhabited

namespace Function

/-- A function without blocks. Its parameters are the first values. -/
def create (name : String) (parameterTypes : List ValueType) (resultType : ValueType)
    (resultCount : Nat) : Function where
  name := name
  parameters := parameterTypes.zipIdx.map fun (type, index) => ⟨⟨index⟩, type⟩
  resultType := resultType
  resultCount := resultCount
  locals := []
  blocks := []
  entry := ⟨0⟩
  valueSupply := parameterTypes.length

/-- Number a new value. -/
def freshValue (function : Function) (type : ValueType) : Value × Function :=
  (⟨⟨function.valueSupply⟩, type⟩, { function with valueSupply := function.valueSupply + 1 })

/-- Declare a local slot. -/
def pushLocal (function : Function) (name : String) (type : ValueType) : LocalId × Function :=
  let id : LocalId := ⟨function.locals.length⟩
  (id, { function with locals := function.locals ++ [⟨id, name, type⟩] })

/-- Add an open block after those there are. -/
def pushBlock (function : Function) (label : Option String) : BlockId × Function :=
  let id : BlockId := ⟨function.blocks.length⟩
  (id, { function with blocks := function.blocks ++ [.empty id label] })

/-- The block with a number. -/
def block? (function : Function) (id : BlockId) : Option BasicBlock :=
  function.blocks[id.index]?

/-- The local slot with a number. -/
def local? (function : Function) (id : LocalId) : Option LocalSlot :=
  function.locals[id.index]?

/-- Change one block; nothing happens when there is no such block. -/
def modifyBlock (function : Function) (id : BlockId) (change : BasicBlock → BasicBlock) :
    Function :=
  { function with blocks := function.blocks.modify id.index change }

/-- The number that a new block gets was free before. -/
@[simp] theorem block?_pushBlock_fst (function : Function) (label : Option String) :
    function.block? (function.pushBlock label).1 = none := by
  simp [block?, pushBlock]

/-- A new block is open and empty, and the blocks there were keep their numbers. -/
theorem block?_pushBlock (function : Function) (label : Option String) (id : BlockId) :
    (function.pushBlock label).2.block? id =
      if id = (function.pushBlock label).1 then some (.empty id label)
      else function.block? id := by
  obtain ⟨index⟩ := id
  simp only [block?, pushBlock, BlockId.mk.injEq, List.getElem?_append]
  split
  · next old => rw [if_neg (Nat.ne_of_lt old)]
  · next new =>
    by_cases last : index = function.blocks.length
    · simp [last]
    · have beyond : function.blocks.length < index := by omega
      simp [last, List.getElem?_eq_none (Nat.le_of_lt beyond), Nat.sub_ne_zero_of_lt beyond]

/-- A change reaches the one block that it is meant for. -/
theorem block?_modifyBlock (function : Function) (id other : BlockId)
    (change : BasicBlock → BasicBlock) :
    (function.modifyBlock id change).block? other =
      if id = other then (function.block? other).map change else function.block? other := by
  obtain ⟨index⟩ := id
  obtain ⟨position⟩ := other
  simp only [block?, modifyBlock, BlockId.mk.injEq, List.getElem?_modify]
  split
  · rfl
  · simp

@[simp] theorem length_blocks_modifyBlock (function : Function) (id : BlockId)
    (change : BasicBlock → BasicBlock) :
    (function.modifyBlock id change).blocks.length = function.blocks.length := by
  simp [modifyBlock]

/-- The first block with a label. -/
def blockLabelled? (function : Function) (label : String) : Option BasicBlock :=
  function.blocks.find? fun block => block.label == some label

/-- The instructions of all blocks, terminators aside, in block order. -/
def instructions (function : Function) : List Instruction :=
  function.blocks.flatMap BasicBlock.instructions

end Function

end YulLowering.Ir
