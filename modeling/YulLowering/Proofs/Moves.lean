import Mathlib.Logic.Relation
import YulLowering.Lowering.Expressions
import YulLowering.Proofs.Growth

/-!
# Lowering, move by move

Lowering a function is a run of small moves: an instruction is written, a block is made, closed or
entered, a variable is declared, a scope or a loop is entered or left. Between two moves some things
have been begun and not been finished: values that nothing has used yet, blocks that have been made
and not been entered, calls whose results will come through spill slots. A stage is a state together
with these. A property of lowered functions that every move keeps holds of every lowered function,
so it is proved once for each kind of move and never for each kind of statement.
-/

namespace YulLowering.Lowering

/-- A state together with what has been begun and not been finished. -/
structure Stage where
  state : State
  /-- Values that have been computed and that nothing has used yet, the latest first. -/
  pending : List Ir.Value
  /-- Blocks that have been made and not been entered, the latest first. -/
  waiting : List Ir.BlockId
  /-- Calls of several values that have spill slots and have not been written yet. -/
  announced : List Target

namespace Stage

/-- A stage where nothing has been begun. -/
def resting (state : State) : Stage :=
  ⟨state, [], [], []⟩

/-- The function under construction. -/
abbrev draft (stage : Stage) : Ir.Draft :=
  stage.state.draft

/-- Change the function under construction. -/
def redraft (stage : Stage) (draft : Ir.Draft) : Stage :=
  { stage with state := { stage.state with draft := draft } }

@[simp] theorem draft_redraft (stage : Stage) (draft : Ir.Draft) :
    (stage.redraft draft).draft = draft := rfl

/-- Where no value is pending, none is given up. -/
theorem redraft_eq_of_idle {stage : Stage} (idle : stage.pending = []) (draft : Ir.Draft) :
    { stage.redraft draft with pending := [] } = stage.redraft draft := by
  obtain ⟨state, pending, waiting, announced⟩ := stage
  cases idle
  rfl

end Stage

/-! ## What a move may write -/

/-- Instructions that are written by themselves. Results take the next number, and variables are
those in scope. -/
inductive Writable (context : Context) (state : State) : Ir.Instruction → Prop where
  | const (type : Ir.ValueType) (constant : Nat) (fits : type.Holds constant) :
      Writable context state (.const (state.draft.next type) constant)
  | load (binding : Binding) (inScope : binding ∈ state.scope.bindings) :
      Writable context state (.load (state.draft.next binding.type) (.ofLocal binding.slot))
  | store (binding : Binding) (value : Ir.Value) (inScope : binding ∈ state.scope.bindings) :
      Writable context state (.store (.ofLocal binding.slot) value)
  | callFunction (name : String) (signature : Signature) (arguments : List Ir.Value)
      (resolved : context.resolveCall name = .ok (.function signature)) :
      Writable context state (.call (state.draft.callResult signature.resultType)
        (.function signature.id) arguments)
  | callBuiltin (name : String) (builtin : Builtin) (external : Ir.External)
      (arguments : List Ir.Value) (resolved : context.resolveCall name = .ok (.builtin builtin))
      (declared : context.external builtin = .ok external) :
      Writable context state (.call (state.draft.callResult (external.results.head?.getD .void))
        (.builtin external.name external.effects) arguments)
  | testNonZero (operand : Ir.Value) (other : operand.type.isBool = false) :
      Writable context state (.testNonZero (state.draft.next .bool) operand)

/-- A copy of what one slot holds to another. -/
structure Transfer where
  type : Ir.ValueType
  source : Ir.Slot
  target : Ir.Slot
deriving DecidableEq, Repr, Inhabited

/-- Code of several copies. The values it defines are numbered from `supply` on. -/
def transferCode (supply : Nat) : List Transfer → List Ir.Instruction
  | [] => []
  | ⟨type, source, target⟩ :: rest =>
    .load ⟨⟨supply⟩, type⟩ source :: .store target ⟨⟨supply⟩, type⟩ ::
      transferCode (supply + 1) rest

/-- Copies read from their sources and write to their targets. -/
theorem mem_transferCode {transfers : List Transfer} {supply : Nat} {instruction : Ir.Instruction}
    (member : instruction ∈ transferCode supply transfers) :
    ∃ transfer ∈ transfers, ∃ value : Ir.Value, value.type = transfer.type ∧
      (instruction = .load value transfer.source ∨ instruction = .store transfer.target value) := by
  induction transfers generalizing supply with
  | nil => cases member
  | cons transfer rest ih =>
      rw [transferCode, List.mem_cons, List.mem_cons] at member
      rcases member with rfl | rfl | member
      · exact ⟨transfer, List.mem_cons_self, _, rfl, .inl rfl⟩
      · exact ⟨transfer, List.mem_cons_self, _, rfl, .inr rfl⟩
      · obtain ⟨other, isOther, found⟩ := ih member
        exact ⟨other, List.mem_cons_of_mem _ isOther, found⟩

/-- A result that comes out of a spill slot. -/
def Transfer.taken (pair : Binding × Ir.GlobalId) : Transfer :=
  ⟨pair.1.type, .ofGlobal pair.2, .ofLocal pair.1.slot⟩

/-- A return value that goes to a spill slot. -/
def Transfer.spilled (pair : Binding × Ir.GlobalId) : Transfer :=
  ⟨pair.1.type, .ofLocal pair.1.slot, .ofGlobal pair.2⟩

/-- Code of a call whose results go to several variables: the first is the direct result, the
others are taken out of spill slots. -/
def receiveCode (result : Ir.Value) (callee : Ir.Callee) (arguments : List Ir.Value)
    (first : Binding) (others : List (Binding × Ir.GlobalId)) : List Ir.Instruction :=
  .call (some result) callee arguments :: .store (.ofLocal first.slot) result ::
    transferCode (result.id.index + 1) (others.map .taken)

/-- The ways to close a block. Control goes to blocks that have not been entered, to blocks from
outside, or back to a block that leads on to one that has not been entered. -/
inductive Exits (outer : List Ir.BlockId) (stage : Stage) : Ir.Terminator → Prop where
  | jump (target : Ir.BlockId) (known : target ∈ stage.waiting ∨ target ∈ outer) :
      Exits outer stage (.jump target)
  | back (target next : Ir.BlockId) (block : Ir.BasicBlock)
      (found : stage.draft.function.block? target = some block)
      (inside : target ≠ stage.draft.function.entry) (leads : next ∈ block.successors)
      (waits : next ∈ stage.waiting) :
      Exits outer stage (.jump target)
  | branch (condition : Ir.Value) (onTrue onFalse : Ir.BlockId)
      (isCondition : condition.type = .bool) (trueWaits : onTrue ∈ stage.waiting)
      (falseWaits : onFalse ∈ stage.waiting) :
      Exits outer stage (.branch condition onTrue onFalse)
  | switch (scrutinee : Ir.Value) (cases : List (Nat × Ir.BlockId)) (default : Ir.BlockId)
      (fit : ∀ arm ∈ cases, scrutinee.type.Holds arm.1)
      (wait : ∀ arm ∈ cases, arm.2 ∈ stage.waiting) (defaultWaits : default ∈ stage.waiting) :
      Exits outer stage (.switch scrutinee cases default)

/-! ## Moves -/

/-- Add instructions one after the other. -/
def writeAll (draft : Ir.Draft) (code : List Ir.Instruction) : Ir.Draft :=
  code.foldl Ir.Draft.write draft

@[simp] theorem writeAll_nil (draft : Ir.Draft) : writeAll draft [] = draft := rfl

@[simp] theorem writeAll_cons (draft : Ir.Draft) (instruction : Ir.Instruction)
    (code : List Ir.Instruction) :
    writeAll draft (instruction :: code) = writeAll (draft.write instruction) code := rfl

/-- The state after a variable has been declared. -/
def State.declared (state : State) (name : String) (type : Ir.ValueType) : State :=
  { state with
    scope := state.scope.bind ⟨name, state.draft.nextLocal, type⟩
    draft := (state.draft.reserve name type).2 }

theorem Step.after_declare (name : String) (type : Ir.ValueType) (state : State) :
    (Step.declare name type).after state =
      (.ok state.draft.nextLocal, state.declared name type) := rfl

/-- The state after spill slots have been reserved. -/
def State.reserved (state : State) (count : Nat) : State :=
  { state with
    spills := (state.spills.reserve state.module count).1
    module := (state.spills.reserve state.module count).2 }

/-- There is nothing to add when no slot is asked for. -/
theorem State.reserved_zero (state : State) : state.reserved 0 = state := by
  simp [State.reserved, SpillSlots.reserve, SpillSlots.extendBy]

theorem State.le_length_slots_reserved (state : State) (count : Nat) :
    count ≤ (state.reserved count).spills.slots.length := by
  have size := SpillSlots.size_reserve state.spills state.module count
  unfold SpillSlots.size at size
  show count ≤ (state.spills.reserve state.module count).1.slots.length
  omega

/-- The state after a builtin has been declared. -/
def State.imported (state : State) (external : Ir.External) : State :=
  { state with module := (state.module.declare external).2 }

/-- One move of a lowering. Blocks in `outer` come from outside of what is being lowered. -/
inductive Move (context : Context) (outer : List Ir.BlockId) : Stage → Stage → Prop where
  | write {stage : Stage} (instruction : Ir.Instruction) (rest : List Ir.Value)
      (isOpen : stage.draft.IsOpen)
      (used : stage.pending = instruction.operands.reverse ++ rest)
      (writable : Writable context stage.state instruction) :
      Move context outer stage
        { stage.redraft (stage.draft.write instruction) with
          pending := instruction.dest?.toList ++ rest }
  | receive {stage : Stage} (name : String) (signature : Signature) (result : Ir.Value)
      (arguments rest : List Ir.Value) (first : Binding) (others : List (Binding × Ir.GlobalId))
      (announced : List Target) (isOpen : stage.draft.IsOpen)
      (resolved : context.resolveCall name = .ok (.function signature))
      (expected : stage.announced = .function signature :: announced)
      (several : others ≠ []) (count : others.length + 1 = signature.results.length)
      (hasResult : stage.draft.callResult signature.resultType = some result)
      (used : stage.pending = arguments.reverse ++ rest)
      (firstInScope : first ∈ stage.state.scope.bindings)
      (inScope : ∀ target ∈ others, target.1 ∈ stage.state.scope.bindings)
      (slots : others.map Prod.snd = stage.state.spills.slots.take others.length) :
      Move context outer stage
        { stage.redraft (writeAll stage.draft
            (receiveCode result (.function signature.id) arguments first others)) with
          pending := rest
          announced := announced }
  | announce {stage : Stage} (name : String) (target : Target)
      (resolved : context.resolveCall name = .ok target) :
      Move context outer stage
        { stage with
          state := stage.state.reserved (target.resultCount - 1)
          announced := target :: stage.announced }
  | declare {stage : Stage} (name : String) (type : Ir.ValueType) :
      Move context outer stage { stage with state := stage.state.declared name type }
  | declareBuiltin {stage : Stage} (name : String) (builtin : Builtin) (external : Ir.External)
      (resolved : context.resolveCall name = .ok (.builtin builtin))
      (isExternal : context.external builtin = .ok external) :
      Move context outer stage { stage with state := stage.state.imported external }
  | discard {stage : Stage} (value : Ir.Value) (rest : List Ir.Value)
      (unused : stage.pending = value :: rest) :
      Move context outer stage { stage with pending := rest }
  | newBlock {stage : Stage} (label : String) :
      Move context outer stage
        { stage.redraft (stage.draft.newBlock label).2 with
          waiting := stage.draft.nextBlock :: stage.waiting }
  | close {stage : Stage} (terminator : Ir.Terminator) (isOpen : stage.draft.IsOpen)
      (used : stage.pending = terminator.operands.reverse) (exits : Exits outer stage terminator) :
      Move context outer stage
        { stage.redraft (stage.draft.close terminator) with pending := [] }
  | moveTo {stage : Stage} (block : Ir.BlockId) (before after : List Ir.BlockId)
      (isClosed : stage.draft.isClosed = true)
      (waits : stage.waiting = before ++ block :: after) :
      Move context outer stage
        { stage.redraft (stage.draft.moveTo block) with waiting := before ++ after }
  | enterBlock {stage : Stage} :
      Move context outer stage
        { stage with state := { stage.state with scope := stage.state.scope.enter } }
  | leaveBlock {stage : Stage} :
      Move context outer stage
        { stage with state := { stage.state with scope := stage.state.scope.leave } }
  | enterLoop {stage : Stage} (targets : LoopFrame) :
      Move context outer stage
        { stage with state := { stage.state with loops := stage.state.loops.enter targets } }
  | leaveLoop {stage : Stage} :
      Move context outer stage
        { stage with state := { stage.state with loops := stage.state.loops.leave } }

/-- Any number of moves. -/
abbrev Moves (context : Context) (outer : List Ir.BlockId) : Stage → Stage → Prop :=
  Relation.ReflTransGen (Move context outer)

variable {context : Context} {outer : List Ir.BlockId}

/-- What every move keeps, every run of moves keeps. -/
theorem Moves.keeps {invariant : Stage → Prop}
    (step : ∀ {stage later}, Move context outer stage later → invariant stage → invariant later)
    {stage later : Stage} (moves : Moves context outer stage later) (holds : invariant stage) :
    invariant later := by
  induction moves with
  | refl => exact holds
  | tail _ move ih => exact step move ih

/-! ## Growth along moves -/

theorem isOpen_writeAll {draft : Ir.Draft} (isOpen : draft.IsOpen)
    (code : List Ir.Instruction) : (writeAll draft code).IsOpen := by
  induction code generalizing draft with
  | nil => exact isOpen
  | cons instruction code ih => exact ih (Ir.Draft.isOpen_write isOpen instruction)

theorem grows_writeAll {draft : Ir.Draft} (isOpen : draft.IsOpen)
    (code : List Ir.Instruction) : draft.function.Grows (writeAll draft code).function := by
  induction code generalizing draft with
  | nil => exact .refl _
  | cons instruction code ih =>
      exact (Ir.Draft.grows_write isOpen instruction).trans
        (ih (Ir.Draft.isOpen_write isOpen instruction))

theorem Move.grows {stage later : Stage} (move : Move context outer stage later) :
    stage.draft.function.Grows later.draft.function := by
  cases move with
  | write instruction _ isOpen => exact Ir.Draft.grows_write isOpen instruction
  | receive _ _ _ _ _ _ _ _ isOpen => exact grows_writeAll isOpen _
  | declare name type => exact Ir.Draft.grows_reserve _ name type
  | newBlock label => exact Ir.Draft.grows_newBlock _ label
  | close terminator isOpen => exact Ir.Draft.grows_close isOpen terminator
  | announce | declareBuiltin | discard | moveTo | enterBlock | leaveBlock | enterLoop
  | leaveLoop => exact .refl _

/-- The function only grows. -/
theorem Moves.grows {stage later : Stage} (moves : Moves context outer stage later) :
    stage.draft.function.Grows later.draft.function := by
  induction moves with
  | refl => exact .refl _
  | tail _ move ih => exact ih.trans move.grows

/-! ## Settled stages -/

/-- Instructions go to the block under the cursor and to no other. -/
theorem block?_writeAll (draft : Ir.Draft) (code : List Ir.Instruction) (id : Ir.BlockId) :
    (writeAll draft code).function.block? id =
      if draft.cursor = id then
        (draft.function.block? id).map fun block => block.appendAll code
      else draft.function.block? id := by
  induction code generalizing draft with
  | nil => cases found : draft.function.block? id <;> simp [found, Ir.BasicBlock.appendAll]
  | cons instruction code ih =>
      rw [writeAll_cons, ih, Ir.Draft.block?_write, Ir.Draft.cursor_write]
      split
      · cases draft.function.block? id <;>
          simp [Ir.BasicBlock.appendAll, Ir.BasicBlock.append]
      · rfl

@[simp] theorem cursor_writeAll (draft : Ir.Draft) (code : List Ir.Instruction) :
    (writeAll draft code).cursor = draft.cursor := by
  induction code generalizing draft with
  | nil => rfl
  | cons instruction code ih => exact ih _

@[simp] theorem entry_writeAll (draft : Ir.Draft) (code : List Ir.Instruction) :
    (writeAll draft code).function.entry = draft.function.entry := by
  induction code generalizing draft with
  | nil => rfl
  | cons instruction code ih => exact ih _

@[simp] theorem locals_writeAll (draft : Ir.Draft) (code : List Ir.Instruction) :
    (writeAll draft code).function.locals = draft.function.locals := by
  induction code generalizing draft with
  | nil => rfl
  | cons instruction code ih => exact ih _

theorem settled_writeAll {draft : Ir.Draft} {waiting : List Ir.BlockId}
    (settled : draft.Settled waiting) (isOpen : draft.IsOpen) (code : List Ir.Instruction) :
    (writeAll draft code).Settled waiting := by
  induction code generalizing draft with
  | nil => exact settled
  | cons instruction code ih =>
      exact ih (settled.write isOpen instruction) (Ir.Draft.isOpen_write isOpen instruction)

/-- The blocks that wait in a stage are settled in its draft. -/
def Stage.Settled (stage : Stage) : Prop :=
  stage.draft.Settled stage.waiting

theorem Move.settled {stage later : Stage} (move : Move context outer stage later)
    (settled : stage.Settled) : later.Settled := by
  cases move with
  | write instruction _ isOpen => exact Ir.Draft.Settled.write settled isOpen instruction
  | receive _ _ _ _ _ _ _ _ isOpen => exact settled_writeAll settled isOpen _
  | declare name type => exact Ir.Draft.Settled.reserve settled name type
  | newBlock label => exact Ir.Draft.Settled.newBlock settled label
  | close terminator isOpen => exact Ir.Draft.Settled.close settled isOpen terminator
  | moveTo block before after _ waits =>
      exact Ir.Draft.Settled.moveTo (by rwa [Stage.Settled, waits] at settled)
  | announce | declareBuiltin | discard | enterBlock | leaveBlock | enterLoop | leaveLoop =>
      exact settled

theorem Moves.settled {stage later : Stage} (moves : Moves context outer stage later)
    (settled : stage.Settled) : later.Settled :=
  moves.keeps Move.settled settled

end YulLowering.Lowering
