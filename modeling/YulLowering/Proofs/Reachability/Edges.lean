import YulLowering.Proofs.ControlFlow

/-!
# Edges to labelled blocks

Every block that lowering makes has a label, and one label is for code that control cannot reach. Edges are
only made to blocks with other labels. While such blocks are made and connected, it is told which of them
are still to be connected; all others can be reached from the entry.
-/

namespace YulLowering

namespace Ir

namespace Function

/-- The label of the block with a number. -/
def label? (function : Function) (id : BlockId) : Option String :=
  (function.block? id).bind BasicBlock.label

/-- A block that control is meant to come to: it has a label, and not the one of code that control cannot
reach. -/
def Intended (function : Function) (id : BlockId) : Prop :=
  ∃ label, function.label? id = some label ∧ label ≠ "unreachable"

theorem Intended.isSome {function : Function} {id : BlockId} (intended : function.Intended id) :
    (function.block? id).isSome := by
  obtain ⟨label, isLabel, -⟩ := intended
  obtain ⟨block, found, -⟩ := Option.bind_eq_some_iff.mp isLabel
  simp [found]

/-- Edges only lead to blocks that control is meant to come to. -/
def Directed (function : Function) : Prop :=
  ∀ source target, function.Edge source target → function.Intended target

end Function

namespace Draft

@[simp] theorem label?_write (draft : Draft) (instruction : Instruction) :
    (draft.write instruction).function.label? = draft.function.label? := by
  funext id
  rw [Function.label?, block?_write, Function.label?]
  split
  · cases draft.function.block? id <;> rfl
  · rfl

@[simp] theorem label?_reserve (draft : Draft) (name : String) (type : ValueType) :
    (draft.reserve name type).2.function.label? = draft.function.label? := by
  funext id
  rw [Function.label?, block?_reserve, Function.label?]
  split
  · cases draft.function.block? id <;> rfl
  · rfl

@[simp] theorem label?_close (draft : Draft) (terminator : Terminator) :
    (draft.close terminator).function.label? = draft.function.label? := by
  funext id
  rw [Function.label?, block?_close, Function.label?]
  split
  · cases draft.function.block? id <;> rfl
  · rfl

theorem label?_newBlock (draft : Draft) (label : String) (id : BlockId) :
    (draft.newBlock label).2.function.label? id =
      if id = draft.nextBlock then some label else draft.function.label? id := by
  rw [Function.label?, block?_newBlock]
  split <;> rfl

/-! ## Edits keep edges directed -/

/-- What is written into blocks has no influence on where edges lead. -/
theorem directed_of_eq {draft later : Draft} (directed : draft.function.Directed)
    (exits : later.function.exit? = draft.function.exit?)
    (labels : later.function.label? = draft.function.label?) : later.function.Directed := by
  unfold Function.Directed Function.Edge Function.Intended at directed ⊢
  rw [exits, labels]
  exact directed

theorem intended_newBlock {draft : Draft} {id : BlockId} (intended : draft.function.Intended id)
    (label : String) : (draft.newBlock label).2.function.Intended id := by
  have old : id ≠ draft.nextBlock := by
    rintro rfl
    have present := intended.isSome
    rw [block?_nextBlock] at present
    cases present
  unfold Function.Intended at intended ⊢
  rwa [label?_newBlock, if_neg old]

theorem intended_nextBlock (draft : Draft) {label : String} (meant : label ≠ "unreachable") :
    (draft.newBlock label).2.function.Intended draft.nextBlock :=
  ⟨label, by rw [label?_newBlock, if_pos rfl], meant⟩

theorem directed_newBlock {draft : Draft} (directed : draft.function.Directed) (label : String) :
    (draft.newBlock label).2.function.Directed := by
  rintro source target ⟨terminator, isExit, leads⟩
  rw [exit?_newBlock] at isExit
  split at isExit
  · cases isExit
    cases leads
  · exact intended_newBlock (directed source target ⟨terminator, isExit, leads⟩) label

theorem intended_close {draft : Draft} {id : BlockId} (intended : draft.function.Intended id)
    (terminator : Terminator) : (draft.close terminator).function.Intended id := by
  unfold Function.Intended
  rwa [label?_close]

/-- A block may be closed with edges to blocks that control is meant to come to. -/
theorem directed_close {draft : Draft} (directed : draft.function.Directed) {terminator : Terminator}
    (meant : ∀ target ∈ terminator.successors, draft.function.Intended target) :
    (draft.close terminator).function.Directed := by
  rintro source target ⟨exit, isExit, leads⟩
  rw [exit?_close] at isExit
  apply intended_close
  split at isExit
  · obtain ⟨-, -, rfl⟩ := Option.map_eq_some_iff.mp isExit
    exact meant target leads
  · exact directed source target ⟨exit, isExit, leads⟩

theorem intended_fallThrough {draft : Draft} {id : BlockId} (intended : draft.function.Intended id)
    (target : BlockId) : (draft.fallThrough target).function.Intended id := by
  unfold fallThrough
  split
  · exact intended
  · exact intended_close intended _

theorem directed_fallThrough {draft : Draft} (directed : draft.function.Directed) {target : BlockId}
    (meant : draft.function.Intended target) : (draft.fallThrough target).function.Directed := by
  unfold fallThrough
  split
  · exact directed
  · apply directed_close directed
    intro other isTarget
    rwa [List.mem_singleton.mp isTarget]

/-! ## Connected drafts -/

/-- All blocks can be reached from the entry, but for some that are still to be connected. -/
def Spans (draft : Draft) (pending : List BlockId) : Prop :=
  ∀ id, (draft.function.exit? id).isSome →
    draft.function.Leads draft.function.entry id ∨ id ∈ pending

/-- Control goes on at the cursor, and all blocks can be reached from the entry, but for some that are still
to be connected. -/
structure Connected (draft : Draft) (pending : List BlockId) : Prop where
  isOpen : draft.IsOpen
  here : draft.function.Leads draft.function.entry draft.cursor
  spans : draft.Spans pending

/-- The block under the cursor is open exactly if it has no terminator. -/
theorem isOpen_iff_exit? (draft : Draft) :
    draft.IsOpen ↔ draft.function.exit? draft.cursor = some .unreachable := by
  constructor
  · rintro ⟨block, found, unset⟩
    rw [Function.exit?, found]
    exact congrArg some ((Terminator.isSet_eq_false _).mp unset)
  · intro isExit
    obtain ⟨block, found, unset⟩ := Option.map_eq_some_iff.mp isExit
    exact ⟨block, found, (Terminator.isSet_eq_false _).mpr unset⟩

namespace Connected

variable {draft later : Draft} {pending rest : List BlockId}

theorem of_exit?_eq (connected : draft.Connected pending)
    (exits : later.function.exit? = draft.function.exit?)
    (entry : later.function.entry = draft.function.entry) (cursor : later.cursor = draft.cursor) :
    later.Connected pending := by
  have edges : later.function.Edge = draft.function.Edge := by
    unfold Function.Edge
    rw [exits]
  refine ⟨?_, ?_, ?_⟩
  · rw [isOpen_iff_exit?, exits, cursor, ← isOpen_iff_exit?]
    exact connected.isOpen
  · unfold Function.Leads
    rw [edges, entry, cursor]
    exact connected.here
  · unfold Spans Function.Leads
    rw [exits, edges, entry]
    exact connected.spans

/-- A new block is still to be connected. -/
theorem newBlock (connected : draft.Connected pending) (label : String) :
    (draft.newBlock label).2.Connected (draft.nextBlock :: pending) := by
  have grows := grows_newBlock draft label
  refine ⟨isOpen_newBlock connected.isOpen label, grows.leads connected.here, ?_⟩
  intro id present
  rw [exit?_newBlock] at present
  split at present
  · next isNew => exact .inr (isNew ▸ List.mem_cons_self)
  · exact (connected.spans id present).imp grows.leads (List.mem_cons_of_mem _)

/-- Closing the block under the cursor connects the blocks that control may go to. -/
theorem leads_close (connected : draft.Connected pending) {terminator : Terminator} {target : BlockId}
    (isTarget : target ∈ terminator.successors) :
    (draft.close terminator).function.Leads draft.function.entry target :=
  ((grows_close connected.isOpen terminator).leads connected.here).tail
    (edge_close connected.isOpen isTarget)

theorem spans_close (connected : draft.Connected pending) {terminator : Terminator}
    (within : ∀ id ∈ pending, id ∈ terminator.successors ∨ id ∈ rest) :
    (draft.close terminator).Spans rest := by
  intro id present
  have before : (draft.function.exit? id).isSome := by
    rw [exit?_close] at present
    split at present
    · simpa using present
    · exact present
  rcases connected.spans id before with leads | waits
  · exact .inl ((grows_close connected.isOpen terminator).leads leads)
  · exact (within id waits).imp_left connected.leads_close

end Connected

/-- Control goes on at a block that it can reach and that nothing has been written to. -/
theorem Spans.moveTo {draft : Draft} {pending : List BlockId} {block : BlockId}
    (spans : draft.Spans pending) (isOpen : draft.function.exit? block = some .unreachable)
    (leads : draft.function.Leads draft.function.entry block) :
    (draft.moveTo block).Connected pending where
  isOpen := (isOpen_iff_exit? _).mpr isOpen
  here := leads
  spans := spans

/-- A block that control can reach is connected. -/
theorem Spans.connect {draft : Draft} {pending : List BlockId} {block : BlockId}
    (spans : draft.Spans (block :: pending))
    (leads : draft.function.Leads draft.function.entry block) : draft.Spans pending := by
  intro id present
  rcases spans id present with reached | waits
  · exact .inl reached
  · rcases List.mem_cons.mp waits with rfl | waits
    · exact .inl leads
    · exact .inr waits

/-- Where control goes on at the cursor, it falls through. -/
theorem Connected.fallThrough_eq {draft : Draft} {pending : List BlockId}
    (connected : draft.Connected pending) (target : BlockId) :
    draft.fallThrough target = draft.jump target := by
  rw [fallThrough, connected.isOpen.isClosed, if_neg Bool.false_ne_true]

end Draft

end Ir

namespace Lowering

variable {context : Context} {outer : List Ir.BlockId}

/-! ## Labels and exits along runs -/

theorem exit?_writeAll (draft : Ir.Draft) (code : List Ir.Instruction) :
    (writeAll draft code).function.exit? = draft.function.exit? := by
  induction code generalizing draft with
  | nil => rfl
  | cons instruction code ih => rw [writeAll_cons, ih, Ir.Draft.exit?_write]

theorem label?_writeAll (draft : Ir.Draft) (code : List Ir.Instruction) :
    (writeAll draft code).function.label? = draft.function.label? := by
  induction code generalizing draft with
  | nil => rfl
  | cons instruction code ih => rw [writeAll_cons, ih, Ir.Draft.label?_write]

/-- Blocks keep their labels. -/
theorem Move.intended {stage later : Stage} (move : Move context outer stage later) {id : Ir.BlockId}
    (intended : stage.draft.function.Intended id) : later.draft.function.Intended id := by
  have of_eq (same : later.draft.function.label? = stage.draft.function.label?) :
      later.draft.function.Intended id := by
    unfold Ir.Function.Intended
    rwa [same]
  cases move with
  | write instruction => exact of_eq (Ir.Draft.label?_write _ instruction)
  | receive => exact of_eq (label?_writeAll _ _)
  | declare name type => exact of_eq (Ir.Draft.label?_reserve _ name type)
  | close terminator => exact of_eq (Ir.Draft.label?_close _ terminator)
  | newBlock label => exact Ir.Draft.intended_newBlock intended label
  | announce | declareBuiltin | discard | moveTo | enterBlock | leaveBlock | enterLoop | leaveLoop =>
      exact intended

theorem Moves.intended {stage later : Stage} (moves : Moves context outer stage later) {id : Ir.BlockId}
    (intended : stage.draft.function.Intended id) : later.draft.function.Intended id := by
  induction moves with
  | refl => exact intended
  | tail _ move ih => exact move.intended ih

end Lowering

end YulLowering
