import YulLowering.Proofs.Construction.Operations

/-!
# Functions with a table of their blocks

A function may be held with a table that says at which position the block with a number stands, so that a block
need not be looked for. Every operation has to keep the table, the blocks and the counters in step, and its
numbers have 32 bits. Here the operations are told with such a table. As long as the numbers fit, each of them
does what it does without one, and the table has exactly the blocks that there are.
-/

namespace YulLowering.Ir

instance : Hashable BlockId :=
  ⟨fun id => hash id.index⟩

/-- The number of 32 bits that a count is cut down to. -/
def word (count : Nat) : Nat :=
  (UInt32.ofNat count).toNat

theorem word_of_lt {count : Nat} (fits : count < UInt32.size) : word count = count :=
  UInt32.toNat_ofNat_of_lt fits

/-- A function with a table of the positions of its blocks. -/
structure Function.Indexed where
  function : Function
  /-- Whatever numbers the blocks bear, they are found at the positions that stand here. -/
  positions : Std.HashMap BlockId Nat

/-- A function with a table. -/
def Function.withTable (function : Function) (positions : Std.HashMap BlockId Nat) :
    Function.Indexed :=
  ⟨function, positions⟩

namespace Function.Indexed

/-- Number a new value. -/
def freshValue (indexed : Indexed) (type : ValueType) : Value × Indexed :=
  (⟨⟨indexed.function.valueSupply⟩, type⟩,
    { indexed with function :=
      { indexed.function with valueSupply := word (indexed.function.valueSupply + 1) } })

/-- Add a parameter, which takes the next value. -/
def pushParameter (indexed : Indexed) (type : ValueType) : Indexed :=
  let (value, indexed) := indexed.freshValue type
  { indexed with function :=
    { indexed.function with parameters := indexed.function.parameters ++ [value] } }

/-- A function without blocks, to which parameters are added one after the other. -/
def create (name : String) (parameterTypes : List ValueType) (resultType : ValueType)
    (resultCount : Nat) : Indexed :=
  parameterTypes.foldl pushParameter ⟨.create name [] resultType resultCount, ∅⟩

/-- Declare a local slot. -/
def pushLocal (indexed : Indexed) (name : String) (type : ValueType) : LocalId × Indexed :=
  let id : LocalId := ⟨word indexed.function.locals.length⟩
  (id, { indexed with function :=
    { indexed.function with locals := indexed.function.locals ++ [⟨id, name, type⟩] } })

/-- Add an open block after those there are, and enter its position in the table. -/
def pushBlock (indexed : Indexed) (label : Option String) : BlockId × Indexed :=
  let id : BlockId := ⟨word indexed.function.blocks.length⟩
  (id,
    { function := { indexed.function with blocks := indexed.function.blocks ++ [.empty id label] }
      positions := indexed.positions.insert id indexed.function.blocks.length })

/-- The block at the position that the table has for a number. -/
def block? (indexed : Indexed) (id : BlockId) : Option BasicBlock :=
  indexed.positions[id]?.bind fun position => indexed.function.blocks[position]?

/-- Change the block at the position that the table has for a number. -/
def modifyBlock (indexed : Indexed) (id : BlockId) (change : BasicBlock → BasicBlock) : Indexed :=
  match indexed.positions[id]? with
  | some position =>
    { indexed with function :=
      { indexed.function with blocks := indexed.function.blocks.modify position change } }
  | none => indexed

end Function.Indexed

/-- A function with a table, and the block that is being written. -/
structure Draft.Indexed where
  function : Function.Indexed
  cursor : BlockId

/-- A draft with a table. -/
def Draft.withTable (draft : Draft) (positions : Std.HashMap BlockId Nat) : Draft.Indexed :=
  ⟨draft.function.withTable positions, draft.cursor⟩

namespace Draft.Indexed

/-- Start writing a function at a new entry. -/
def start (function : Function.Indexed) : Indexed :=
  let (entry, function) := function.pushBlock (some "entry")
  { function := { function with function := { function.function with entry := entry } }
    cursor := entry }

/-- Write an instruction under the cursor. -/
def emit (draft : Indexed) (instruction : Instruction) : Indexed :=
  { draft with
    function := draft.function.modifyBlock draft.cursor fun block => block.append instruction }

/-- Close the block under the cursor. -/
def close (draft : Indexed) (terminator : Terminator) : Indexed :=
  { draft with
    function := draft.function.modifyBlock draft.cursor fun block => block.close terminator }

/-- Write the instruction that defines a new value. -/
def define (draft : Indexed) (type : ValueType) (instruction : Value → Instruction) :
    Value × Indexed :=
  let (value, function) := draft.function.freshValue type
  (value, emit { draft with function := function } (instruction value))

/-- Declare a local slot and reserve it in the entry block. -/
def reserve (draft : Indexed) (name : String) (type : ValueType) : LocalId × Indexed :=
  let (slot, function) := draft.function.pushLocal name type
  (slot,
    { draft with function := function.modifyBlock function.function.entry fun block =>
        block.append (.reserve slot type) })

end Draft.Indexed

namespace Construction

/-- A function in one of its forms, with a table. -/
abbrev Stored : Form → Type
  | .function => Function.Indexed
  | .draft => Draft.Indexed

/-- The function and its table. -/
def Stored.indexed : {form : Form} → Stored form → Function.Indexed
  | .function, indexed => indexed
  | .draft, draft => Draft.Indexed.function draft

/-- What is held, without the table. -/
def Stored.content : {form : Form} → Stored form → Held form
  | .function, indexed => Function.Indexed.function indexed
  | .draft, draft => (⟨draft.function.function, draft.cursor⟩ : Draft)

/-- What is held, with a table. -/
def Held.withTable (positions : Std.HashMap BlockId Nat) : {form : Form} → Held form → Stored form
  | .function, function => Function.withTable function positions
  | .draft, draft => Draft.withTable draft positions

theorem indexed_withTable {form : Form} (held : Held form) (positions : Std.HashMap BlockId Nat) :
    Stored.indexed (held.withTable positions) = held.function.withTable positions := by
  cases form <;> rfl

theorem content_withTable {form : Form} (held : Held form) (positions : Std.HashMap BlockId Nat) :
    Stored.content (held.withTable positions) = held := by
  cases form <;> rfl

/-- Write with a table. -/
def Writing.performIndexed (draft : Draft.Indexed) : Writing → Option Value × Draft.Indexed
  | emit instruction => (none, draft.emit instruction)
  | const type constant => (draft.define type fun dest => .const dest constant).map some id
  | load slot type => (draft.define type fun dest => .load dest slot).map some id
  | store slot value => (none, draft.emit (.store slot value))
  | call callee arguments resultType =>
    if resultType.isVoid then (none, draft.emit (.call none callee arguments))
    else (draft.define resultType fun dest => .call (some dest) callee arguments).map some id
  | toCondition operand =>
    if operand.type.isBool then (none, draft)
    else (draft.define .bool fun dest => .testNonZero dest operand).map some id
  | close terminator => (none, draft.close terminator)
  | jump target => (none, draft.close (.jump target))

/-- Do what an operation says with a table. -/
def Operation.performIndexed : {form later : Form} → Operation form later → Stored form →
    Option Value × Stored later
  | _, _, number type, indexed => (Function.Indexed.freshValue indexed type).map some id
  | _, _, pushLocal name type, indexed => (none, (Function.Indexed.pushLocal indexed name type).2)
  | _, _, pushBlock label, indexed => (none, (Function.Indexed.pushBlock indexed label).2)
  | _, _, append block instruction, indexed =>
    (none, Function.Indexed.modifyBlock indexed block fun block => block.append instruction)
  | _, _, close block terminator, indexed =>
    (none, Function.Indexed.modifyBlock indexed block fun block => block.close terminator)
  | _, _, start, indexed => (none, Draft.Indexed.start indexed)
  | _, _, freshValue type, draft =>
    let (value, function) := draft.function.freshValue type
    (some value, { draft with function := function })
  | _, _, reserve name type, draft => (none, (Draft.Indexed.reserve draft name type).2)
  | _, _, newBlock label, draft =>
    (none, { draft with function := (draft.function.pushBlock (some label)).2 })
  | _, _, moveTo block, draft => (none, { draft with cursor := block })
  | _, _, write writing, draft => writing.performIndexed draft
  | _, _, finish, draft => (none, draft.function)

/-! ## Keeping a table in step -/

/-- A table has every block at its number, and no other number. -/
def Tracks (positions : Std.HashMap BlockId Nat) (function : Function) : Prop :=
  ∀ id : BlockId, positions[id]? = if id.index < function.blocks.length then some id.index else none

namespace Tracks

variable {positions : Std.HashMap BlockId Nat} {function : Function}

theorem empty (function : Function) (noBlocks : function.blocks = []) : Tracks ∅ function := by
  intro id
  simp [noBlocks]

/-- A table is good for as long as no block is added. -/
theorem of_length_eq {later : Function} (tracks : Tracks positions function)
    (same : later.blocks.length = function.blocks.length) : Tracks positions later := by
  intro id
  rw [tracks id, same]

/-- What the table finds is found by number. -/
theorem block?_eq (tracks : Tracks positions function) (id : BlockId) :
    (function.withTable positions).block? id = function.block? id := by
  rw [Function.Indexed.block?, Function.withTable, tracks id, Function.block?]
  split
  · rfl
  next beyond => exact (List.getElem?_eq_none (Nat.le_of_not_lt beyond)).symm

theorem modifyBlock_eq (tracks : Tracks positions function) (id : BlockId)
    (change : BasicBlock → BasicBlock) :
    (function.withTable positions).modifyBlock id change =
      (function.modifyBlock id change).withTable positions := by
  rw [Function.Indexed.modifyBlock, Function.withTable, tracks id]
  split
  next position isPosition =>
    split at isPosition
    · cases isPosition
      rfl
    · cases isPosition
  next absent =>
    have beyond : function.blocks.length ≤ id.index := by simpa using absent
    rw [Function.modifyBlock, List.modify_eq_self beyond]
    rfl

theorem pushBlock (tracks : Tracks positions function) (label : Option String) :
    Tracks (positions.insert ⟨function.blocks.length⟩ function.blocks.length)
      (function.pushBlock label).2 := by
  rintro ⟨index⟩
  rw [Std.HashMap.getElem?_insert, tracks ⟨index⟩]
  simp only [Function.pushBlock, List.length_append, List.length_singleton, beq_iff_eq,
    BlockId.mk.injEq]
  by_cases last : function.blocks.length = index
  · simp [last]
  · have old : index < function.blocks.length + 1 ↔ index < function.blocks.length := by omega
    simp only [if_neg last, old]

end Tracks

/-! ## Operations with a table and without -/

section

variable {positions : Std.HashMap BlockId Nat} {function : Function} {draft : Draft}

theorem freshValue_withTable (fits : function.valueSupply + 1 < UInt32.size) (type : ValueType) :
    (function.withTable positions).freshValue type =
      (function.freshValue type).map id (·.withTable positions) := by
  simp only [Function.Indexed.freshValue, Function.withTable, word_of_lt fits]
  rfl

theorem pushLocal_withTable (fits : function.locals.length < UInt32.size) (name : String)
    (type : ValueType) : (function.withTable positions).pushLocal name type =
      (function.pushLocal name type).map id (·.withTable positions) := by
  simp only [Function.Indexed.pushLocal, Function.withTable, word_of_lt fits]
  rfl

theorem pushBlock_withTable (fits : function.blocks.length < UInt32.size) (label : Option String) :
    (function.withTable positions).pushBlock label =
      (function.pushBlock label).map id
        (·.withTable (positions.insert ⟨function.blocks.length⟩ function.blocks.length)) := by
  simp only [Function.Indexed.pushBlock, Function.withTable, word_of_lt fits]
  rfl

theorem start_withTable (fits : function.blocks.length < UInt32.size) :
    Draft.Indexed.start (function.withTable positions) = (Draft.start function).withTable
      (positions.insert ⟨function.blocks.length⟩ function.blocks.length) := by
  simp only [Draft.Indexed.start, pushBlock_withTable fits]
  rfl

theorem emit_withTable (tracks : Tracks positions draft.function) (instruction : Instruction) :
    (draft.withTable positions).emit instruction = (draft.emit instruction).withTable positions := by
  simp only [Draft.Indexed.emit, Draft.withTable, tracks.modifyBlock_eq]
  rfl

theorem close_withTable (tracks : Tracks positions draft.function) (terminator : Terminator) :
    (draft.withTable positions).close terminator = (draft.close terminator).withTable positions := by
  simp only [Draft.Indexed.close, Draft.withTable, tracks.modifyBlock_eq]
  rfl

theorem define_withTable (tracks : Tracks positions draft.function)
    (fits : draft.function.valueSupply + 1 < UInt32.size) (type : ValueType)
    (instruction : Value → Instruction) :
    (draft.withTable positions).define type instruction =
      (draft.define type instruction).map id (·.withTable positions) := by
  have numbered : Tracks positions (draft.freshValue type).2.function := tracks
  simp only [Draft.Indexed.define, Draft.withTable, freshValue_withTable fits]
  exact congrArg (Prod.mk _) (emit_withTable numbered _)

theorem reserve_withTable (tracks : Tracks positions draft.function)
    (fits : draft.function.locals.length < UInt32.size) (name : String) (type : ValueType) :
    (draft.withTable positions).reserve name type =
      (draft.reserve name type).map id (·.withTable positions) := by
  have declared : Tracks positions (draft.function.pushLocal name type).2 := tracks
  simp only [Draft.Indexed.reserve, Draft.withTable, pushLocal_withTable fits, Prod.map]
  exact congrArg (fun function => (_, (⟨function, draft.cursor⟩ : Draft.Indexed)))
    (declared.modifyBlock_eq _ _)

/-- What is written with a table is what is written without, as long as values have numbers of 32 bits. -/
theorem Writing.performIndexed_eq (writing : Writing) (tracks : Tracks positions draft.function)
    (fits : draft.function.valueSupply +
      (writing.performIndexed (draft.withTable positions)).1.toList.length < UInt32.size) :
    writing.performIndexed (draft.withTable positions) =
      (writing.perform draft).map id (·.withTable positions) := by
  cases writing with
  | emit instruction => exact congrArg (Prod.mk none) (emit_withTable tracks instruction)
  | const type constant =>
      exact congrArg (Prod.map some id) (define_withTable tracks fits type fun dest => .const dest constant)
  | load slot type =>
      exact congrArg (Prod.map some id) (define_withTable tracks fits type fun dest => .load dest slot)
  | store slot value => exact congrArg (Prod.mk none) (emit_withTable tracks _)
  | call callee arguments resultType =>
      by_cases isVoid : resultType.isVoid
      · simp only [performIndexed, perform, Draft.call, if_pos isVoid]
        exact congrArg (Prod.mk none) (emit_withTable tracks _)
      · simp only [performIndexed, perform, Draft.call, if_neg isVoid] at fits ⊢
        exact congrArg (Prod.map some id) (define_withTable tracks fits resultType _)
  | toCondition operand =>
      by_cases isCondition : operand.type.isBool
      · simp only [performIndexed, perform, Draft.toCondition, if_pos isCondition]
        rfl
      · simp only [performIndexed, perform, Draft.toCondition, if_neg isCondition] at fits ⊢
        exact congrArg (Prod.map some id) (define_withTable tracks fits .bool _)
  | close terminator => exact congrArg (Prod.mk none) (close_withTable tracks terminator)
  | jump target => exact congrArg (Prod.mk none) (close_withTable tracks _)

/-- What is done with a table is done without, as long as numbers have 32 bits, and the table stays in step. -/
theorem Operation.performIndexed_eq {form later : Form} (operation : Operation form later)
    {held : Held form} (tracks : Tracks positions held.function)
    (blocks : held.function.blocks.length < UInt32.size) (locals : held.function.locals.length < UInt32.size)
    (values : held.function.valueSupply +
      (operation.performIndexed (held.withTable positions)).1.toList.length < UInt32.size) :
    ∃ table, Tracks table (operation.perform held).2.function ∧
      operation.performIndexed (held.withTable positions) =
        (operation.perform held).map id (·.withTable table) := by
  have kept (same : operation.added held.function.blocks.length = []) :
      Tracks positions (operation.perform held).2.function := by
    apply tracks.of_length_eq
    rw [(operation.effect held).length_blocks, same, List.length_nil, Nat.add_zero]
  cases operation with
  | number type =>
      exact ⟨positions, kept rfl, congrArg (Prod.map some id) (freshValue_withTable values type)⟩
  | pushLocal name type =>
      exact ⟨positions, kept rfl,
        congrArg (fun result => (none, result.2)) (pushLocal_withTable locals name type)⟩
  | append block instruction =>
      exact ⟨positions, kept rfl, congrArg (Prod.mk none) (tracks.modifyBlock_eq block _)⟩
  | close block terminator =>
      exact ⟨positions, kept rfl, congrArg (Prod.mk none) (tracks.modifyBlock_eq block _)⟩
  | freshValue type =>
      refine ⟨positions, kept rfl, ?_⟩
      exact congrArg
        (fun result => (some result.1, (⟨result.2, Draft.cursor held⟩ : Draft.Indexed)))
        (freshValue_withTable values type)
  | reserve name type =>
      exact ⟨positions, kept rfl,
        congrArg (fun result => (none, result.2)) (reserve_withTable tracks locals name type)⟩
  | write writing => exact ⟨positions, kept rfl, writing.performIndexed_eq tracks values⟩
  | moveTo | finish => exact ⟨positions, kept rfl, rfl⟩
  | pushBlock label =>
      exact ⟨_, tracks.pushBlock label,
        congrArg (fun result => (none, result.2)) (pushBlock_withTable blocks label)⟩
  | newBlock label =>
      refine ⟨_, tracks.pushBlock (some label), ?_⟩
      exact congrArg (fun result => (none, (⟨result.2, Draft.cursor held⟩ : Draft.Indexed)))
        (pushBlock_withTable blocks (some label))
  | start =>
      exact ⟨_, tracks.pushBlock (some "entry"), congrArg (Prod.mk none) (start_withTable blocks)⟩

end

end Construction

end YulLowering.Ir
