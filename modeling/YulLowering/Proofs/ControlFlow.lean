import YulLowering.Proofs.StructuredRuns

/-!
# Control flow under construction

While a function is lowered, some of its blocks are open: the one under the cursor perhaps, and those
that wait to be entered. From every block, also from those that control cannot reach, a path leads to
an open block. When no block waits any more, it leads to the block under the cursor, which therefore
is open still.
-/

namespace YulLowering

namespace Ir

namespace Function

/-- How the block with a number ends. -/
def exit? (function : Function) (id : BlockId) : Option Terminator :=
  (function.block? id).map BasicBlock.terminator

/-- Control may go from one block to another. -/
def Edge (function : Function) (source target : BlockId) : Prop :=
  ∃ terminator, function.exit? source = some terminator ∧ target ∈ terminator.successors

/-- A path of edges, of any length. -/
abbrev Leads (function : Function) : BlockId → BlockId → Prop :=
  Relation.ReflTransGen function.Edge

/-- Edges come from closed blocks, and these keep their terminators. -/
theorem Grows.edge {older newer : Function} (grows : older.Grows newer) {source target : BlockId}
    (edge : older.Edge source target) : newer.Edge source target := by
  obtain ⟨terminator, isExit, leads⟩ := edge
  obtain ⟨block, found, rfl⟩ := Option.map_eq_some_iff.mp isExit
  have isClosed : block.isClosed = true := by
    rw [BasicBlock.isClosed, Terminator.isSet_eq_true]
    intro unset
    rw [unset] at leads
    cases leads
  obtain ⟨later, foundLater, same, -⟩ := grows.closed found isClosed
  refine ⟨later.terminator, ?_, same ▸ leads⟩
  rw [exit?, foundLater]
  rfl

theorem Grows.leads {older newer : Function} (grows : older.Grows newer) {source target : BlockId}
    (leads : older.Leads source target) : newer.Leads source target :=
  Relation.ReflTransGen.mono (fun _ _ => grows.edge) _ _ leads

end Function

namespace Draft

@[simp] theorem exit?_write (draft : Draft) (instruction : Instruction) :
    (draft.write instruction).function.exit? = draft.function.exit? := by
  funext id
  rw [Function.exit?, block?_write]
  split
  · cases found : draft.function.block? id <;> simp [Function.exit?, found, BasicBlock.append]
  · rfl

@[simp] theorem exit?_reserve (draft : Draft) (name : String) (type : ValueType) :
    (draft.reserve name type).2.function.exit? = draft.function.exit? := by
  funext id
  rw [Function.exit?, block?_reserve]
  split
  · cases found : draft.function.block? id <;> simp [Function.exit?, found, BasicBlock.append]
  · rfl

theorem exit?_newBlock (draft : Draft) (label : String) (id : BlockId) :
    (draft.newBlock label).2.function.exit? id =
      if id = draft.nextBlock then some .unreachable else draft.function.exit? id := by
  rw [Function.exit?, block?_newBlock]
  split <;> rfl

theorem exit?_close (draft : Draft) (terminator : Terminator) (id : BlockId) :
    (draft.close terminator).function.exit? id =
      if draft.cursor = id then (draft.function.exit? id).map fun _ => terminator
      else draft.function.exit? id := by
  rw [Function.exit?, block?_close]
  split
  · cases found : draft.function.block? id <;> simp [Function.exit?, found, BasicBlock.close]
  · rfl

/-- What holds of the blocks of a function under construction. -/
structure Flows (draft : Draft) (waiting : List BlockId) : Prop where
  within : ∀ {source target}, draft.function.Edge source target →
    target ≠ draft.function.entry ∧ (draft.function.exit? target).isSome
  returnless : ∀ id value, draft.function.exit? id ≠ some (.ret value)
  unclosed : ∀ id, draft.function.exit? id = some .unreachable → id = draft.cursor ∨ id ∈ waiting
  goesOn : ∀ id, (draft.function.exit? id).isSome →
    ∃ target, draft.function.Leads id target ∧ draft.function.exit? target = some .unreachable

/-- What is written into blocks has no influence on the flow between them. -/
theorem Flows.of_exit?_eq {draft later : Draft} {waiting : List BlockId}
    (flows : draft.Flows waiting) (exits : later.function.exit? = draft.function.exit?)
    (entry : later.function.entry = draft.function.entry) (cursor : later.cursor = draft.cursor) :
    later.Flows waiting := by
  have edges : later.function.Edge = draft.function.Edge := by
    unfold Function.Edge
    rw [exits]
  refine ⟨?_, ?_, ?_, ?_⟩
  · rw [edges, exits, entry]
    exact flows.within
  · rw [exits]
    exact flows.returnless
  · rw [exits, cursor]
    exact flows.unclosed
  · unfold Function.Leads
    rw [edges, exits]
    exact flows.goesOn

/-- A block that waits is open. -/
theorem Settled.exit?_of_mem {draft : Draft} {waiting : List BlockId}
    (settled : draft.Settled waiting) {id : BlockId} (waits : id ∈ waiting) :
    draft.function.exit? id = some .unreachable := by
  obtain ⟨-, -, label, found⟩ := settled.fresh id waits
  rw [Function.exit?, found]
  rfl

/-- A block that is closed has edges to all that its terminator names. -/
theorem edge_close {draft : Draft} (isOpen : draft.IsOpen) {terminator : Terminator}
    {target : BlockId} (leads : target ∈ terminator.successors) :
    (draft.close terminator).function.Edge draft.cursor target := by
  obtain ⟨block, found, -⟩ := isOpen
  refine ⟨terminator, ?_, leads⟩
  rw [exit?_close, if_pos rfl, Function.exit?, found]
  rfl

namespace Flows

variable {draft : Draft} {waiting : List BlockId}

theorem newBlock (flows : draft.Flows waiting) (label : String) :
    (draft.newBlock label).2.Flows (draft.nextBlock :: waiting) := by
  have grows := grows_newBlock draft label
  have old {id : BlockId} (present : (draft.function.exit? id).isSome) : id ≠ draft.nextBlock := by
    rintro rfl
    simp [Function.exit?, block?_nextBlock] at present
  have kept {id : BlockId} (present : (draft.function.exit? id).isSome) :
      (draft.newBlock label).2.function.exit? id = draft.function.exit? id := by
    rw [exit?_newBlock, if_neg (old present)]
  refine ⟨?_, ?_, ?_, ?_⟩
  · rintro source target ⟨terminator, isExit, leads⟩
    rw [exit?_newBlock] at isExit
    split at isExit
    · cases isExit
      cases leads
    · obtain ⟨notEntry, present⟩ := flows.within ⟨terminator, isExit, leads⟩
      exact ⟨notEntry, by rwa [kept present]⟩
  · intro id value
    rw [exit?_newBlock]
    split
    · simp
    · exact flows.returnless id value
  · intro id isOpen
    rw [exit?_newBlock] at isOpen
    split at isOpen
    · next equal => exact .inr (equal ▸ List.mem_cons_self)
    · exact (flows.unclosed id isOpen).imp_right (List.mem_cons_of_mem _)
  · intro id present
    by_cases isNew : id = draft.nextBlock
    · exact ⟨id, .refl, by rw [exit?_newBlock, if_pos isNew]⟩
    · rw [exit?_newBlock, if_neg isNew] at present
      obtain ⟨target, leads, isOpen⟩ := flows.goesOn id present
      exact ⟨target, grows.leads leads, by rw [kept (by simp [isOpen]), isOpen]⟩

/-- The block under the cursor may be closed with edges to blocks other than the entry, if one of
them leads to a block that waits. -/
theorem close (flows : draft.Flows waiting) (settled : draft.Settled waiting)
    (isOpen : draft.IsOpen) {terminator : Terminator}
    (within : ∀ target ∈ terminator.successors,
      target ≠ draft.function.entry ∧ (draft.function.exit? target).isSome)
    (returnless : ∀ value, terminator ≠ .ret value) (isSet : terminator ≠ .unreachable)
    (leadsOn : ∃ next ∈ waiting, (draft.close terminator).function.Leads draft.cursor next) :
    (draft.close terminator).Flows waiting := by
  have grows := grows_close isOpen terminator
  have kept {id : BlockId} (present : (draft.function.exit? id).isSome) :
      ((draft.close terminator).function.exit? id).isSome := by
    rw [exit?_close]
    split <;> simp [present]
  have elsewhere {id : BlockId} (other : id ≠ draft.cursor) :
      (draft.close terminator).function.exit? id = draft.function.exit? id := by
    rw [exit?_close, if_neg (Ne.symm other)]
  have closed {exit : Terminator}
      (isExit : (draft.close terminator).function.exit? draft.cursor = some exit) :
      exit = terminator := by
    rw [exit?_close, if_pos rfl] at isExit
    obtain ⟨-, -, equal⟩ := Option.map_eq_some_iff.mp isExit
    exact equal.symm
  refine ⟨?_, ?_, ?_, ?_⟩
  · rintro source target ⟨exit, isExit, leads⟩
    by_cases isCursor : source = draft.cursor
    · subst isCursor
      obtain rfl := closed isExit
      exact (within target leads).imp_right kept
    · rw [elsewhere isCursor] at isExit
      exact (flows.within ⟨exit, isExit, leads⟩).imp_right kept
  · intro id value isExit
    by_cases isCursor : id = draft.cursor
    · subst isCursor
      exact returnless value (closed isExit).symm
    · rw [elsewhere isCursor] at isExit
      exact flows.returnless id value isExit
  · intro id isExit
    by_cases isCursor : id = draft.cursor
    · exact .inl isCursor
    · rw [elsewhere isCursor] at isExit
      exact flows.unclosed id isExit
  · intro id present
    have before : (draft.function.exit? id).isSome := by
      rw [exit?_close] at present
      split at present
      · simpa using present
      · exact present
    obtain ⟨target, leads, isOpen⟩ := flows.goesOn id before
    by_cases isCursor : target = draft.cursor
    · obtain ⟨next, waits, onward⟩ := leadsOn
      refine ⟨next, (grows.leads leads).trans (isCursor ▸ onward), ?_⟩
      rw [elsewhere (settled.fresh next waits).1, settled.exit?_of_mem waits]
    · exact ⟨target, grows.leads leads, by rw [elsewhere isCursor, isOpen]⟩

/-- Once the block under the cursor is closed, the cursor may go to one that waits. -/
theorem moveTo {block : BlockId} {before after : List BlockId}
    (flows : draft.Flows (before ++ block :: after)) (isClosed : draft.isClosed = true) :
    (draft.moveTo block).Flows (before ++ after) := by
  refine ⟨flows.within, flows.returnless, ?_, flows.goesOn⟩
  intro id isOpen
  rcases flows.unclosed id isOpen with rfl | waits
  · exfalso
    obtain ⟨current, found, unset⟩ := Option.map_eq_some_iff.mp isOpen
    rw [function_moveTo] at found
    simp [Draft.isClosed, found, BasicBlock.isClosed, unset] at isClosed
  · simp only [List.mem_append, List.mem_cons] at waits ⊢
    rcases waits with early | rfl | late
    · exact .inr (.inl early)
    · exact .inl rfl
    · exact .inr (.inr late)

/-- When no block waits, all blocks lead to the one under the cursor. -/
theorem leads_cursor (flows : draft.Flows []) {id : BlockId}
    (present : (draft.function.exit? id).isSome) : draft.function.Leads id draft.cursor := by
  obtain ⟨target, leads, isOpen⟩ := flows.goesOn id present
  rcases flows.unclosed target isOpen with rfl | waits
  · exact leads
  · cases waits

/-- When no block waits, the one under the cursor is open. -/
theorem isOpen (flows : draft.Flows []) {id : BlockId}
    (present : (draft.function.exit? id).isSome) : draft.IsOpen := by
  obtain ⟨target, -, isOpen⟩ := flows.goesOn id present
  rcases flows.unclosed target isOpen with rfl | waits
  · obtain ⟨block, found, unset⟩ := Option.map_eq_some_iff.mp isOpen
    exact ⟨block, found, by simp [BasicBlock.isClosed, unset]⟩
  · cases waits

end Flows

end Draft

end Ir

namespace Lowering

variable {context : Context} {outer : List Ir.BlockId}

/-- The control flow of a stage is that of its function. -/
def Stage.Flows (stage : Stage) : Prop :=
  stage.Settled ∧ stage.draft.Flows stage.waiting

theorem flows_writeAll {draft : Ir.Draft} {waiting : List Ir.BlockId} (flows : draft.Flows waiting)
    (code : List Ir.Instruction) : (writeAll draft code).Flows waiting := by
  induction code generalizing draft with
  | nil => exact flows
  | cons instruction code ih =>
      exact ih (flows.of_exit?_eq (Ir.Draft.exit?_write draft instruction) rfl rfl)

namespace Exits

variable {stage : Stage} {terminator : Ir.Terminator}

theorem isSet (exits : Exits outer stage terminator) : terminator ≠ .unreachable := by
  cases exits <;> simp

theorem returnless (exits : Exits outer stage terminator) (value : Option Ir.Value) :
    terminator ≠ .ret value := by
  cases exits <;> simp

/-- Blocks that control goes to exist and are not the entry. -/
theorem within (exits : Exits [] stage terminator) (settled : stage.Settled) :
    ∀ target ∈ terminator.successors, target ≠ stage.draft.function.entry ∧
      (stage.draft.function.exit? target).isSome := by
  have waits {target : Ir.BlockId} (waiting : target ∈ stage.waiting) :
      target ≠ stage.draft.function.entry ∧ (stage.draft.function.exit? target).isSome :=
    ⟨(settled.fresh target waiting).2.1,
      by rw [Ir.Draft.Settled.exit?_of_mem settled waiting]; rfl⟩
  intro target leads
  cases exits with
  | jump other known =>
      obtain rfl := List.mem_singleton.mp leads
      rcases known with waiting | ⟨⟨⟩⟩
      exact waits waiting
  | back other next block found inside =>
      obtain rfl := List.mem_singleton.mp leads
      exact ⟨inside, by simp [Ir.Function.exit?, found]⟩
  | branch condition onTrue onFalse _ trueWaits falseWaits =>
      rcases List.mem_cons.mp leads with rfl | leads
      · exact waits trueWaits
      · obtain rfl := List.mem_singleton.mp leads
        exact waits falseWaits
  | switch scrutinee cases default _ wait defaultWaits =>
      rcases List.mem_append.mp leads with isArm | isDefault
      · obtain ⟨arm, member, rfl⟩ := List.mem_map.mp isArm
        exact waits (wait arm member)
      · obtain rfl := List.mem_singleton.mp isDefault
        exact waits defaultWaits

/-- Control goes on to a block that waits, directly or by way of a loop's head. -/
theorem leadsOn (exits : Exits [] stage terminator) (isOpen : stage.draft.IsOpen) :
    ∃ next ∈ stage.waiting,
      (stage.draft.close terminator).function.Leads stage.draft.cursor next := by
  have directly {next : Ir.BlockId} (leads : next ∈ terminator.successors) :
      (stage.draft.close terminator).function.Leads stage.draft.cursor next :=
    .single (Ir.Draft.edge_close isOpen leads)
  cases exits with
  | jump target known =>
      rcases known with waiting | ⟨⟨⟩⟩
      exact ⟨target, waiting, directly (List.mem_singleton_self target)⟩
  | back target next block found inside leads waits =>
      have edge : stage.draft.function.Edge target next :=
        ⟨block.terminator, by simp [Ir.Function.exit?, found], leads⟩
      exact ⟨next, waits, (directly (List.mem_singleton_self target)).tail
        ((Ir.Draft.grows_close isOpen _).edge edge)⟩
  | branch condition onTrue onFalse _ trueWaits =>
      exact ⟨onTrue, trueWaits, directly List.mem_cons_self⟩
  | switch scrutinee cases default _ _ defaultWaits =>
      exact ⟨default, defaultWaits,
        directly (List.mem_append_right _ (List.mem_singleton_self default))⟩

end Exits

/-- Moves keep all blocks leading on to an open one. -/
theorem Move.flows {stage later : Stage} (move : Move context [] stage later)
    (flows : stage.Flows) : later.Flows := by
  refine ⟨move.settled flows.1, ?_⟩
  obtain ⟨settled, flows⟩ := flows
  cases move with
  | write instruction =>
      exact flows.of_exit?_eq (Ir.Draft.exit?_write _ instruction) rfl rfl
  | receive => exact flows_writeAll flows _
  | declare name type => exact flows.of_exit?_eq (Ir.Draft.exit?_reserve _ name type) rfl rfl
  | newBlock label => exact flows.newBlock label
  | close terminator isOpen _ exits =>
      exact flows.close settled isOpen (exits.within settled) exits.returnless exits.isSet
        (exits.leadsOn isOpen)
  | moveTo block before after isClosed waits =>
      rw [waits] at flows
      exact flows.moveTo isClosed
  | announce | declareBuiltin | discard | enterBlock | leaveBlock | enterLoop | leaveLoop =>
      exact flows

theorem Moves.flows {stage later : Stage} (moves : Moves context [] stage later)
    (flows : stage.Flows) : later.Flows :=
  moves.keeps Move.flows flows

end Lowering

end YulLowering
