import Mathlib.Data.List.Nodup
import YulLowering.Proofs.Drafts

/-!
# What an operation can do to a function

A function is built by itself or under the cursor of a draft, and may change between the two as often as one
likes. This module lists the operations on both and says once what an operation can do: it writes to one block
at most, at the end, and it may add a block, a slot or a value, each with the next number. That blocks, slots
and values are numbered in order follows for any number of operations.
-/

namespace YulLowering.Ir

namespace BasicBlock

/-- Put instructions at the end of a block, and close it if there is a terminator to close it with. -/
def extend (block : BasicBlock) (code : List Instruction) (exit? : Option Terminator) : BasicBlock :=
  { block.appendAll code with terminator := exit?.getD block.terminator }

@[simp] theorem extend_nil_none (block : BasicBlock) : block.extend [] none = block := by
  simp [extend, appendAll]

theorem close_eq_extend (block : BasicBlock) (terminator : Terminator) :
    block.close terminator = block.extend [] (some terminator) := by
  simp [close, extend, appendAll]

/-- Extend the block with a number, if there is such a block. -/
def extendAt (blocks : List BasicBlock) (target? : Option BlockId) (code : List Instruction)
    (exit? : Option Terminator) : List BasicBlock :=
  target?.elim blocks fun target => blocks.modify target.index fun block => block.extend code exit?

@[simp] theorem length_extendAt (blocks : List BasicBlock) (target? : Option BlockId)
    (code : List Instruction) (exit? : Option Terminator) :
    (extendAt blocks target? code exit?).length = blocks.length := by
  cases target? <;> simp [extendAt]

/-- A block that is extended keeps its number. -/
@[simp] theorem ids_extendAt (blocks : List BasicBlock) (target? : Option BlockId)
    (code : List Instruction) (exit? : Option Terminator) :
    (extendAt blocks target? code exit?).map BasicBlock.id = blocks.map BasicBlock.id := by
  cases target? with
  | none => rfl
  | some target =>
      apply List.ext_getElem?
      intro index
      simp only [extendAt, Option.elim_some, List.getElem?_map, List.getElem?_modify]
      cases blocks[index]? <;> simp [extend, appendAll, apply_ite]

/-- Where there is no such block, nothing is extended. -/
theorem extendAt_of_absent {blocks : List BasicBlock} {target : BlockId}
    (absent : blocks[target.index]? = none) (code : List Instruction) (exit? : Option Terminator) :
    extendAt blocks (some target) code exit? = blocks :=
  List.modify_eq_self (List.getElem?_eq_none_iff.mp absent)

/-- An extension by nothing changes nothing. -/
@[simp] theorem extendAt_nil_none (blocks : List BasicBlock) (target? : Option BlockId) :
    extendAt blocks target? [] none = blocks := by
  cases target? with
  | none => rfl
  | some target =>
      simp only [extendAt, Option.elim_some, extend_nil_none]
      exact List.modify_id _ _

end BasicBlock

/-- Extend the block under the cursor, with a number of new values. -/
def Draft.extend (draft : Draft) (code : List Instruction) (exit? : Option Terminator)
    (count : Nat) : Draft where
  function :=
    { draft.function with
      blocks := BasicBlock.extendAt draft.function.blocks (some draft.cursor) code exit?
      valueSupply := draft.function.valueSupply + count }
  cursor := draft.cursor

theorem Draft.extend_nil_none (draft : Draft) : draft.extend [] none 0 = draft := by
  simp [extend]

theorem Draft.close_eq_extend (draft : Draft) (terminator : Terminator) :
    draft.close terminator = draft.extend [] (some terminator) 0 := by
  simp [close, extend, Function.modifyBlock, BasicBlock.extendAt, BasicBlock.close_eq_extend]

namespace Construction

/-! ## The operations -/

/-- The forms of a function while it is built. -/
inductive Form where
  | function
  /-- Under a cursor. -/
  | draft
deriving DecidableEq, Repr

/-- A function in one of its forms. -/
abbrev Held : Form → Type
  | .function => Function
  | .draft => Draft

/-- The function that is built. -/
def Held.function : {form : Form} → Held form → Function
  | .function, function => function
  | .draft, draft => Draft.function draft

/-- Where the cursor is, if there is one. -/
def Held.cursor? : {form : Form} → Held form → Option BlockId
  | .function, _ => none
  | .draft, draft => some (Draft.cursor draft)

/-- What can be written under a cursor. Branches, switches and returns are ways to close a block. -/
inductive Writing where
  | emit (instruction : Instruction)
  | const (type : ValueType) (constant : Nat)
  | load (slot : Slot) (type : ValueType)
  | store (slot : Slot) (value : Value)
  | call (callee : Callee) (arguments : List Value) (resultType : ValueType)
  | toCondition (operand : Value)
  | close (terminator : Terminator)
  | jump (target : BlockId)
deriving DecidableEq, Repr

/-- Write, and give back the value that has been numbered for it, if any. -/
def Writing.perform (draft : Draft) : Writing → Option Value × Draft
  | emit instruction => (none, draft.emit instruction)
  | const type constant => (draft.const type constant).map some id
  | load slot type => (draft.load slot type).map some id
  | store slot value => (none, draft.store slot value)
  | call callee arguments resultType => draft.call callee arguments resultType
  | toCondition operand =>
    -- A condition is handed through; it has got its number before.
    (if operand.type.isBool then none else some (draft.toCondition operand).1,
      (draft.toCondition operand).2)
  | close terminator => (none, draft.close terminator)
  | jump target => (none, draft.jump target)

/-- Whether a writing closes the block under the cursor. -/
def Writing.closes : Writing → Bool
  | close _ | jump _ => true
  | _ => false

/-- What can be done to a function that has a form, and the form that it has afterwards. What only looks at
the function is left out. -/
inductive Operation : Form → Form → Type where
  | number (type : ValueType) : Operation .function .function
  | pushLocal (name : String) (type : ValueType) : Operation .function .function
  | pushBlock (label : Option String) : Operation .function .function
  /-- Write an instruction to the block with a number, if there is one. -/
  | append (block : BlockId) (instruction : Instruction) : Operation .function .function
  /-- Close the block with a number, if there is one. -/
  | close (block : BlockId) (terminator : Terminator) : Operation .function .function
  | start : Operation .function .draft
  | freshValue (type : ValueType) : Operation .draft .draft
  | reserve (name : String) (type : ValueType) : Operation .draft .draft
  | newBlock (label : String) : Operation .draft .draft
  | moveTo (block : BlockId) : Operation .draft .draft
  | write (writing : Writing) : Operation .draft .draft
  | finish : Operation .draft .function
deriving Repr

namespace Operation

/-- Do what an operation says, and give back the value that it has numbered, if any. -/
def perform : {form later : Form} → Operation form later → Held form → Option Value × Held later
  | _, _, number type, function => (function.freshValue type).map some id
  | _, _, pushLocal name type, function => (none, (function.pushLocal name type).2)
  | _, _, pushBlock label, function => (none, (function.pushBlock label).2)
  | _, _, append block instruction, function =>
    (none, function.modifyBlock block fun block => block.append instruction)
  | _, _, close block terminator, function =>
    (none, function.modifyBlock block fun block => block.close terminator)
  | _, _, start, function => (none, Draft.start function)
  | _, _, freshValue type, draft => (draft.freshValue type).map some id
  | _, _, reserve name type, draft => (none, (draft.reserve name type).2)
  | _, _, newBlock label, draft => (none, (draft.newBlock label).2)
  | _, _, moveTo block, draft => (none, draft.moveTo block)
  | _, _, write writing, draft => writing.perform draft
  | _, _, finish, draft => (none, draft.function)

/-- The one block that an operation may change. -/
def target? : {form later : Form} → Operation form later → Held form → Option BlockId
  | _, _, append block _, _ | _, _, close block _, _ => some block
  | _, _, reserve _ _, draft => some draft.function.entry
  | _, _, write _, draft => some draft.cursor
  | _, _, _, _ => none

/-- The blocks that an operation adds where there are `count`. -/
def added (count : Nat) : {form later : Form} → Operation form later → List BasicBlock
  | _, _, pushBlock label => [.empty ⟨count⟩ label]
  | _, _, newBlock label => [.empty ⟨count⟩ (some label)]
  | _, _, start => [.empty ⟨count⟩ (some "entry")]
  | _, _, _ => []

/-- The slots that an operation declares where there are `count`. -/
def declared (count : Nat) : {form later : Form} → Operation form later → List LocalSlot
  | _, _, pushLocal name type | _, _, reserve name type => [⟨⟨count⟩, name, type⟩]
  | _, _, _ => []

/-- Whether an operation closes a block. -/
def closes : {form later : Form} → Operation form later → Bool
  | _, _, close _ _ => true
  | _, _, write writing => writing.closes
  | _, _, _ => false

/-- Whether an operation is meant to write an instruction or a terminator, and nothing else. -/
def writes : {form later : Form} → Operation form later → Bool
  | _, _, append _ _ | _, _, close _ _ | _, _, write _ => true
  | _, _, _ => false

theorem added_of_writes {form later : Form} {operation : Operation form later}
    (isWriting : operation.writes = true) (count : Nat) : operation.added count = [] := by
  cases operation with
  | append | close | write => rfl
  | _ => cases isWriting

theorem declared_of_writes {form later : Form} {operation : Operation form later}
    (isWriting : operation.writes = true) (count : Nat) : operation.declared count = [] := by
  cases operation with
  | append | close | write => rfl
  | _ => cases isWriting

end Operation

/-! ## What one operation does -/

/-- The block under the cursor is extended, and a value may be numbered, which is the next one. -/
theorem Writing.perform_eq (writing : Writing) (draft : Draft) :
    ∃ (type? : Option ValueType) (code : List Instruction) (exit? : Option Terminator),
      writing.perform draft =
        (type?.map draft.next, draft.extend code exit? type?.toList.length) ∧
      (writing.closes = false → exit? = none) := by
  cases writing with
  | emit instruction => exact ⟨none, [instruction], none, rfl, fun _ => rfl⟩
  | const type constant =>
      exact ⟨some type, [.const (draft.next type) constant], none, rfl, fun _ => rfl⟩
  | load slot type => exact ⟨some type, [.load (draft.next type) slot], none, rfl, fun _ => rfl⟩
  | store slot value => exact ⟨none, [.store slot value], none, rfl, fun _ => rfl⟩
  | call callee arguments resultType =>
      by_cases isVoid : resultType.isVoid
      · refine ⟨none, [.call none callee arguments], none, ?_, fun _ => rfl⟩
        rw [perform, Draft.call, if_pos isVoid]
        rfl
      · refine ⟨some resultType, [.call (some (draft.next resultType)) callee arguments], none, ?_,
          fun _ => rfl⟩
        rw [perform, Draft.call, if_neg isVoid]
        rfl
  | toCondition operand =>
      by_cases isCondition : operand.type.isBool
      · refine ⟨none, [], none, ?_, fun _ => rfl⟩
        rw [perform, Draft.toCondition, if_pos isCondition, if_pos isCondition]
        exact congrArg (Prod.mk none) draft.extend_nil_none.symm
      · refine ⟨some .bool, [.testNonZero (draft.next .bool) operand], none, ?_, fun _ => rfl⟩
        rw [perform, Draft.toCondition, if_neg isCondition, if_neg isCondition]
        rfl
  | close terminator =>
      refine ⟨none, [], some terminator, congrArg (Prod.mk none) (draft.close_eq_extend _), ?_⟩
      intro stays
      cases stays
  | jump target =>
      refine ⟨none, [], some (.jump target), congrArg (Prod.mk none) (draft.close_eq_extend _), ?_⟩
      intro stays
      cases stays

variable {form later : Form}

/-- What an operation has done to a function. -/
structure Operation.Effect (operation : Operation form later) (before : Held form)
    (value? : Option Value) (after : Held later) : Prop where
  /-- One block at most has changed: it has got instructions at its end, or it has been closed. A new block
  stands last. -/
  blocks : ∃ (code : List Instruction) (exit? : Option Terminator),
    after.function.blocks =
      BasicBlock.extendAt before.function.blocks (operation.target? before) code exit? ++
        operation.added before.function.blocks.length ∧
    (operation.closes = false → exit? = none)
  /-- A new slot stands last. -/
  locals : after.function.locals =
    before.function.locals ++ operation.declared before.function.locals.length
  /-- A value that has been numbered has got the next number. -/
  number : ∀ value, value? = some value → value.id = ⟨before.function.valueSupply⟩
  supply : after.function.valueSupply = before.function.valueSupply + value?.toList.length
  /-- A function that gets a cursor gets a new entry. -/
  entry : after.function.entry =
    if form = .function ∧ later = .draft then ⟨before.function.blocks.length⟩ else before.function.entry
  /-- Nothing else has changed. -/
  header : after.function = { before.function with
    blocks := after.function.blocks, locals := after.function.locals, entry := after.function.entry,
    valueSupply := after.function.valueSupply }
  cursor : operation.writes = true → after.cursor? = before.cursor?

namespace Operation

theorem blocks_perform (operation : Operation form later) (held : Held form) :
    ∃ (code : List Instruction) (exit? : Option Terminator),
      (operation.perform held).2.function.blocks =
        BasicBlock.extendAt held.function.blocks (operation.target? held) code exit? ++
          operation.added held.function.blocks.length ∧
      (operation.closes = false → exit? = none) := by
  cases operation with
  | append block instruction =>
      exact ⟨[instruction], none, (List.append_nil _).symm, fun _ => rfl⟩
  | close block terminator =>
      refine ⟨[], some terminator, ?_, nofun⟩
      simp only [perform, Function.modifyBlock, BasicBlock.close_eq_extend]
      exact (List.append_nil _).symm
  | reserve name type =>
      exact ⟨[.reserve ⟨held.function.locals.length⟩ type], none, (List.append_nil _).symm, fun _ => rfl⟩
  | write writing =>
      obtain ⟨type?, code, exit?, performed, stays⟩ := writing.perform_eq held
      refine ⟨code, exit?, ?_, stays⟩
      rw [perform, performed]
      exact (List.append_nil _).symm
  | number | pushLocal | freshValue | moveTo | finish =>
      exact ⟨[], none, (List.append_nil _).symm, fun _ => rfl⟩
  | pushBlock | newBlock | start => exact ⟨[], none, rfl, fun _ => rfl⟩

theorem effect (operation : Operation form later) (held : Held form) :
    operation.Effect held (operation.perform held).1 (operation.perform held).2 := by
  have blocks := operation.blocks_perform held
  cases operation with
  | write writing =>
      obtain ⟨type?, code, exit?, performed, -⟩ := writing.perform_eq held
      rw [perform, performed] at blocks ⊢
      refine ⟨blocks, (List.append_nil _).symm, ?_, ?_, rfl, rfl, fun _ => rfl⟩
      · intro value isNumbered
        obtain ⟨type, -, rfl⟩ := Option.map_eq_some_iff.mp isNumbered
        rfl
      · cases type? <;> rfl
  | number type | freshValue type =>
      refine ⟨blocks, (List.append_nil _).symm, ?_, rfl, rfl, rfl, fun _ => rfl⟩
      intro value isNumbered
      cases isNumbered
      rfl
  | pushLocal | reserve =>
      exact ⟨blocks, rfl, nofun, rfl, rfl, rfl, fun _ => rfl⟩
  | append | close | pushBlock | newBlock =>
      exact ⟨blocks, (List.append_nil _).symm, nofun, rfl, rfl, rfl, fun _ => rfl⟩
  | start | moveTo | finish =>
      exact ⟨blocks, (List.append_nil _).symm, nofun, rfl, rfl, rfl, nofun⟩

theorem Effect.length_blocks {operation : Operation form later} {before : Held form}
    {value? : Option Value} {after : Held later} (effect : operation.Effect before value? after) :
    after.function.blocks.length =
      before.function.blocks.length + (operation.added before.function.blocks.length).length := by
  obtain ⟨code, exit?, blocks, -⟩ := effect.blocks
  rw [blocks, List.length_append, BasicBlock.length_extendAt]

/-- Where an operation is to write to a block that there is not, only the supply of values changes. -/
theorem Effect.idle {operation : Operation form later} {before : Held form} {value? : Option Value}
    {after : Held later} (effect : operation.Effect before value? after)
    (isWriting : operation.writes = true) {target : BlockId}
    (isTarget : operation.target? before = some target)
    (absent : before.function.block? target = none) :
    after.function = { before.function with valueSupply := after.function.valueSupply } ∧
      after.cursor? = before.cursor? := by
  refine ⟨?_, effect.cursor isWriting⟩
  have blocks : after.function.blocks = before.function.blocks := by
    obtain ⟨code, exit?, blocks, -⟩ := effect.blocks
    rw [blocks, isTarget, BasicBlock.extendAt_of_absent absent, added_of_writes isWriting, List.append_nil]
  have locals : after.function.locals = before.function.locals := by
    rw [effect.locals, declared_of_writes isWriting, List.append_nil]
  have entry : after.function.entry = before.function.entry := by
    rw [effect.entry, if_neg]
    -- What gives a function a cursor adds a block and is no writing.
    rintro ⟨rfl, rfl⟩
    cases operation
    cases isWriting
  rw [effect.header, blocks, locals, entry]

end Operation

/-! ## What holds after any number of operations -/

/-- Numbers from zero on are followed by those from their count on. -/
theorem map_range_add {α : Type} (mk : Nat → α) (count more : Nat) :
    (List.range (count + more)).map mk = (List.range count).map mk ++ (List.range' count more).map mk := by
  rw [← List.map_append, List.range_eq_range', List.range_eq_range', ← List.range'_append_1, Nat.zero_add]

/-- Blocks, slots and values are numbered in order, and the parameters are the first values. -/
structure Numbered (function : Function) (values : List Value) : Prop where
  blocks : function.blocks.map BasicBlock.id = (List.range function.blocks.length).map BlockId.mk
  locals : function.locals.map LocalSlot.id = (List.range function.locals.length).map LocalId.mk
  parameters : function.parameters <+: values
  numbers : values.map Value.id = (List.range function.valueSupply).map ValueId.mk

namespace Numbered

theorem create (name : String) (parameterTypes : List ValueType) (resultType : ValueType)
    (resultCount : Nat) : Numbered (.create name parameterTypes resultType resultCount)
      (Function.create name parameterTypes resultType resultCount).parameters where
  blocks := rfl
  locals := rfl
  parameters := List.prefix_rfl
  numbers := by
    apply List.ext_getElem <;> simp [Function.create]

variable {function : Function} {values : List Value}

theorem block_id_eq (numbered : Numbered function values) {index : Nat}
    (bound : index < function.blocks.length) : function.blocks[index].id = ⟨index⟩ := by
  have ids := congrArg (fun ids => ids[index]?) numbered.blocks
  simpa [bound] using ids

theorem local_id_eq (numbered : Numbered function values) {index : Nat}
    (bound : index < function.locals.length) : function.locals[index].id = ⟨index⟩ := by
  have ids := congrArg (fun ids => ids[index]?) numbered.locals
  simpa [bound] using ids

theorem length_values (numbered : Numbered function values) : values.length = function.valueSupply := by
  simpa using congrArg List.length numbered.numbers

theorem nodup (numbered : Numbered function values) : (values.map Value.id).Nodup := by
  rw [numbered.numbers]
  exact List.Nodup.map (fun _ _ same => ValueId.mk.inj same) List.nodup_range

/-- An operation gives new blocks, slots and values the next numbers. -/
theorem step {operation : Operation form later} {before : Held form} {value? : Option Value}
    {after : Held later} (numbered : Numbered before.function values)
    (effect : operation.Effect before value? after) :
    Numbered after.function (values ++ value?.toList) where
  blocks := by
    have ids (count : Nat) : (operation.added count).map BasicBlock.id =
        (List.range' count (operation.added count).length).map BlockId.mk := by
      cases operation <;> rfl
    obtain ⟨code, exit?, blocks, -⟩ := effect.blocks
    rw [blocks, List.map_append, BasicBlock.ids_extendAt, numbered.blocks, ids, List.length_append,
      BasicBlock.length_extendAt, map_range_add]
  locals := by
    have ids (count : Nat) : (operation.declared count).map LocalSlot.id =
        (List.range' count (operation.declared count).length).map LocalId.mk := by
      cases operation <;> rfl
    rw [effect.locals, List.map_append, numbered.locals, ids, List.length_append, map_range_add]
  numbers := by
    rw [effect.supply, List.map_append, numbered.numbers, map_range_add]
    cases isNumbered : value? with
    | none => rfl
    | some value => simp [effect.number value isNumbered]
  parameters := by
    rw [effect.header]
    exact numbered.parameters.trans (List.prefix_append _ _)

end Numbered

end Construction

end YulLowering.Ir
