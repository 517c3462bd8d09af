import YulLowering.Ir.Draft

/-!
# Edits of a draft

Every change that lowering makes to a draft is one of five edits: an instruction is written, the
block under the cursor is closed, a block is added, the cursor is moved, or a slot is reserved. This
module says what each edit does to the blocks, by number, and what survives all of them.
-/

namespace YulLowering.Ir

/-! ## What instructions and terminators use -/

namespace Instruction

/-- The values an instruction uses, in order. -/
def operands : Instruction → List Value
  | const _ _ | reserve _ _ | load _ _ => []
  | store _ value => [value]
  | call _ _ arguments => arguments
  | testNonZero _ operand => [operand]

end Instruction

namespace Terminator

/-- The values a terminator uses. -/
def operands : Terminator → List Value
  | jump _ | ret none | unreachable => []
  | branch condition _ _ => [condition]
  | switch scrutinee _ _ => [scrutinee]
  | ret (some value) => [value]

@[simp] theorem isSet_eq_false (terminator : Terminator) :
    terminator.isSet = false ↔ terminator = .unreachable := by
  simp [isSet]

@[simp] theorem isSet_eq_true (terminator : Terminator) :
    terminator.isSet = true ↔ terminator ≠ .unreachable := by
  simp [isSet]

end Terminator

namespace BasicBlock

/-- Put several instructions at the end. -/
def appendAll (block : BasicBlock) (code : List Instruction) : BasicBlock :=
  { block with instructions := block.instructions ++ code }

@[simp] theorem isClosed_empty (id : BlockId) (label : Option String) :
    (empty id label).isClosed = false := rfl

@[simp] theorem isClosed_append (block : BasicBlock) (instruction : Instruction) :
    (block.append instruction).isClosed = block.isClosed := rfl

@[simp] theorem isClosed_close (block : BasicBlock) (terminator : Terminator) :
    (block.close terminator).isClosed = terminator.isSet := rfl

end BasicBlock

namespace Draft

/-! ## Writing an instruction -/

/-- The value that the next defining instruction defines. -/
def next (draft : Draft) (type : ValueType) : Value :=
  ⟨⟨draft.function.valueSupply⟩, type⟩

/-- Write an instruction, whose result takes the next number if it has one. -/
def write (draft : Draft) (instruction : Instruction) : Draft where
  function :=
    { draft.function.modifyBlock draft.cursor fun block => block.append instruction with
      valueSupply := draft.function.valueSupply + instruction.dest?.toList.length }
  cursor := draft.cursor

theorem const_eq (draft : Draft) (type : ValueType) (constant : Nat) :
    draft.const type constant =
      (draft.next type, draft.write (.const (draft.next type) constant)) := rfl

theorem load_eq (draft : Draft) (slot : Slot) (type : ValueType) :
    draft.load slot type = (draft.next type, draft.write (.load (draft.next type) slot)) := rfl

theorem store_eq (draft : Draft) (slot : Slot) (value : Value) :
    draft.store slot value = draft.write (.store slot value) := rfl

/-- The result of a call, if its type has values. -/
def callResult (draft : Draft) (resultType : ValueType) : Option Value :=
  if resultType.isVoid then none else some (draft.next resultType)

/-- The value that a call gives is the next one. -/
theorem callResult_eq_some {draft : Draft} {type : ValueType} {result : Value}
    (hasResult : draft.callResult type = some result) : result = draft.next type := by
  unfold callResult at hasResult
  split at hasResult
  · cases hasResult
  · exact (Option.some.inj hasResult).symm

theorem call_eq (draft : Draft) (callee : Callee) (arguments : List Value)
    (resultType : ValueType) :
    draft.call callee arguments resultType =
      (draft.callResult resultType,
        draft.write (.call (draft.callResult resultType) callee arguments)) := by
  unfold call callResult
  split <;> rfl

theorem toCondition_eq (draft : Draft) (operand : Value) (other : operand.type.isBool = false) :
    draft.toCondition operand =
      (draft.next .bool, draft.write (.testNonZero (draft.next .bool) operand)) := by
  rw [toCondition, if_neg (by simp [other])]
  rfl

@[simp] theorem cursor_write (draft : Draft) (instruction : Instruction) :
    (draft.write instruction).cursor = draft.cursor := rfl

@[simp] theorem entry_write (draft : Draft) (instruction : Instruction) :
    (draft.write instruction).function.entry = draft.function.entry := rfl

@[simp] theorem locals_write (draft : Draft) (instruction : Instruction) :
    (draft.write instruction).function.locals = draft.function.locals := rfl

@[simp] theorem parameters_write (draft : Draft) (instruction : Instruction) :
    (draft.write instruction).function.parameters = draft.function.parameters := rfl

@[simp] theorem valueSupply_write (draft : Draft) (instruction : Instruction) :
    (draft.write instruction).function.valueSupply =
      draft.function.valueSupply + instruction.dest?.toList.length := rfl

@[simp] theorem length_blocks_write (draft : Draft) (instruction : Instruction) :
    (draft.write instruction).function.blocks.length = draft.function.blocks.length := by
  simp [write, Function.modifyBlock]

/-- An instruction goes to the block under the cursor and to no other. -/
theorem block?_write (draft : Draft) (instruction : Instruction) (id : BlockId) :
    (draft.write instruction).function.block? id =
      if draft.cursor = id then
        (draft.function.block? id).map fun block => block.append instruction
      else draft.function.block? id :=
  Function.block?_modifyBlock draft.function draft.cursor id _

/-! ## The other edits -/

/-- The number of the next block. -/
def nextBlock (draft : Draft) : BlockId :=
  ⟨draft.function.blocks.length⟩

@[simp] theorem newBlock_fst (draft : Draft) (label : String) :
    (draft.newBlock label).1 = draft.nextBlock := rfl

@[simp] theorem cursor_newBlock (draft : Draft) (label : String) :
    (draft.newBlock label).2.cursor = draft.cursor := rfl

@[simp] theorem entry_newBlock (draft : Draft) (label : String) :
    (draft.newBlock label).2.function.entry = draft.function.entry := rfl

@[simp] theorem locals_newBlock (draft : Draft) (label : String) :
    (draft.newBlock label).2.function.locals = draft.function.locals := rfl

@[simp] theorem length_blocks_newBlock (draft : Draft) (label : String) :
    (draft.newBlock label).2.function.blocks.length = draft.function.blocks.length + 1 := by
  simp [newBlock, Function.pushBlock]

/-- A new block is open and empty; the others stay as they are. -/
theorem block?_newBlock (draft : Draft) (label : String) (id : BlockId) :
    (draft.newBlock label).2.function.block? id =
      if id = draft.nextBlock then some (.empty id (some label)) else draft.function.block? id :=
  Function.block?_pushBlock draft.function (some label) id

@[simp] theorem cursor_close (draft : Draft) (terminator : Terminator) :
    (draft.close terminator).cursor = draft.cursor := rfl

@[simp] theorem entry_close (draft : Draft) (terminator : Terminator) :
    (draft.close terminator).function.entry = draft.function.entry := rfl

@[simp] theorem locals_close (draft : Draft) (terminator : Terminator) :
    (draft.close terminator).function.locals = draft.function.locals := rfl

@[simp] theorem length_blocks_close (draft : Draft) (terminator : Terminator) :
    (draft.close terminator).function.blocks.length = draft.function.blocks.length := by
  simp [close, Function.modifyBlock]

/-- Closing reaches the block under the cursor and no other. -/
theorem block?_close (draft : Draft) (terminator : Terminator) (id : BlockId) :
    (draft.close terminator).function.block? id =
      if draft.cursor = id then
        (draft.function.block? id).map fun block => block.close terminator
      else draft.function.block? id :=
  Function.block?_modifyBlock draft.function draft.cursor id _

/-- Closing makes no block and loses none. -/
@[simp] theorem isSome_block?_close (draft : Draft) (terminator : Terminator) (id : BlockId) :
    ((draft.close terminator).function.block? id).isSome = (draft.function.block? id).isSome := by
  rw [block?_close]
  split
  · exact Option.isSome_map
  · rfl

@[simp] theorem function_moveTo (draft : Draft) (block : BlockId) :
    (draft.moveTo block).function = draft.function := rfl

@[simp] theorem cursor_moveTo (draft : Draft) (block : BlockId) :
    (draft.moveTo block).cursor = block := rfl

/-- The slot that the next reservation makes. -/
def nextLocal (draft : Draft) : LocalId :=
  ⟨draft.function.locals.length⟩

@[simp] theorem reserve_fst (draft : Draft) (name : String) (type : ValueType) :
    (draft.reserve name type).1 = draft.nextLocal := rfl

@[simp] theorem cursor_reserve (draft : Draft) (name : String) (type : ValueType) :
    (draft.reserve name type).2.cursor = draft.cursor := rfl

@[simp] theorem entry_reserve (draft : Draft) (name : String) (type : ValueType) :
    (draft.reserve name type).2.function.entry = draft.function.entry := rfl

@[simp] theorem locals_reserve (draft : Draft) (name : String) (type : ValueType) :
    (draft.reserve name type).2.function.locals =
      draft.function.locals ++ [⟨draft.nextLocal, name, type⟩] := rfl

@[simp] theorem length_blocks_reserve (draft : Draft) (name : String) (type : ValueType) :
    (draft.reserve name type).2.function.blocks.length = draft.function.blocks.length := by
  simp [reserve, Function.modifyBlock, Function.pushLocal]

/-- A reservation goes to the entry block, wherever the cursor stands. -/
theorem block?_reserve (draft : Draft) (name : String) (type : ValueType) (id : BlockId) :
    (draft.reserve name type).2.function.block? id =
      if draft.function.entry = id then
        (draft.function.block? id).map fun block =>
          block.append (.reserve draft.nextLocal type)
      else draft.function.block? id :=
  Function.block?_modifyBlock (draft.function.pushLocal name type).2 draft.function.entry id _

/-! ## Open and closed cursors -/

/-- The block under the cursor exists and takes further instructions. -/
def IsOpen (draft : Draft) : Prop :=
  ∃ block, draft.function.block? draft.cursor = some block ∧ block.isClosed = false

theorem IsOpen.isClosed {draft : Draft} (isOpen : draft.IsOpen) : draft.isClosed = false := by
  obtain ⟨block, found, unset⟩ := isOpen
  simp [Draft.isClosed, found, unset]

/-- Where there is a block under the cursor, it is open unless it is closed. -/
theorem isOpen_of_isClosed_eq_false {draft : Draft} {block : BasicBlock}
    (found : draft.function.block? draft.cursor = some block)
    (unset : draft.isClosed = false) : draft.IsOpen :=
  ⟨block, found, by simpa [isClosed, found] using unset⟩

theorem isOpen_write {draft : Draft} (isOpen : draft.IsOpen) (instruction : Instruction) :
    (draft.write instruction).IsOpen := by
  obtain ⟨block, found, unset⟩ := isOpen
  exact ⟨block.append instruction, by simp [block?_write, found], unset⟩

theorem isOpen_reserve {draft : Draft} (isOpen : draft.IsOpen) (name : String)
    (type : ValueType) : (draft.reserve name type).2.IsOpen := by
  obtain ⟨block, found, unset⟩ := isOpen
  unfold IsOpen
  rw [block?_reserve, cursor_reserve, found]
  split
  · exact ⟨_, rfl, unset⟩
  · exact ⟨block, rfl, unset⟩

theorem isOpen_newBlock {draft : Draft} (isOpen : draft.IsOpen) (label : String) :
    (draft.newBlock label).2.IsOpen := by
  obtain ⟨block, found, unset⟩ := isOpen
  have old : draft.cursor ≠ draft.nextBlock := by
    intro equal
    simp [equal, nextBlock, Function.block?] at found
  exact ⟨block, by simp [block?_newBlock, old, found], unset⟩

theorem isClosed_close {draft : Draft} (isOpen : draft.IsOpen) {terminator : Terminator}
    (isSet : terminator ≠ .unreachable) : (draft.close terminator).isClosed = true := by
  obtain ⟨block, found, -⟩ := isOpen
  simp [isClosed, block?_close, found, isSet]

theorem isClosed_eq_any (draft : Draft) :
    draft.isClosed = (draft.function.block? draft.cursor).any BasicBlock.isClosed := by
  unfold isClosed
  cases draft.function.block? draft.cursor <;> rfl

@[simp] theorem isClosed_write (draft : Draft) (instruction : Instruction) :
    (draft.write instruction).isClosed = draft.isClosed := by
  rw [isClosed_eq_any, isClosed_eq_any, cursor_write, block?_write, if_pos rfl]
  cases draft.function.block? draft.cursor <;> rfl

@[simp] theorem isClosed_reserve (draft : Draft) (name : String) (type : ValueType) :
    (draft.reserve name type).2.isClosed = draft.isClosed := by
  rw [isClosed_eq_any, isClosed_eq_any, cursor_reserve, block?_reserve]
  split
  · cases draft.function.block? draft.cursor <;> rfl
  · rfl

@[simp] theorem isClosed_newBlock (draft : Draft) (label : String) :
    (draft.newBlock label).2.isClosed = draft.isClosed := by
  rw [isClosed_eq_any, isClosed_eq_any, cursor_newBlock, block?_newBlock]
  by_cases dangling : draft.cursor = draft.nextBlock
  · have absent : draft.function.block? draft.nextBlock = none := by
      simp [nextBlock, Function.block?]
    simp [dangling, absent]
  · rw [if_neg dangling]

end Draft

end YulLowering.Ir
