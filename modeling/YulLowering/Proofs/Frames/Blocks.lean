import Mathlib.Data.List.Chain
import YulLowering.Proofs.Programs

/-!
# What a statement leaves alone

While a statement is lowered, code goes to the block that was under the cursor and to blocks that have been
made meanwhile. All other blocks are out of its reach, but for the slots that are reserved in the entry
block. This holds at every stage of the way, so it holds as well where the statement stops with a fault.
-/

namespace YulLowering

namespace Ir

@[simp] theorem BasicBlock.appendAll_nil (block : BasicBlock) : block.appendAll [] = block := by
  simp [appendAll]

theorem BasicBlock.appendAll_appendAll (block : BasicBlock) (code more : List Instruction) :
    (block.appendAll code).appendAll more = block.appendAll (code ++ more) := by
  simp [appendAll]

namespace Function

/-- Where no slot has been declared, none has been reserved. -/
theorem reservationsSince_of_locals_eq {older newer : Function} (same : newer.locals = older.locals) :
    older.reservationsSince newer = [] := by
  simp [reservationsSince, same]

/-- What has been added to a block out of reach between two moments. -/
def addedTo (older newer : Function) (id : BlockId) : List Instruction :=
  if id = older.entry then older.reservationsSince newer else []

theorem Grows.addedTo_append {older middle newer : Function} (first : older.Grows middle)
    (second : middle.Grows newer) (id : BlockId) :
    older.addedTo middle id ++ middle.addedTo newer id = older.addedTo newer id := by
  unfold addedTo
  rw [first.entry]
  split
  · exact reservationsSince_append first.locals second.locals
  · rfl

/-- Blocks that have been closed stay closed in the way they are. -/
def KeepsExits (older newer : Function) : Prop :=
  ∀ id terminator, older.exit? id = some terminator → terminator.isSet →
    newer.exit? id = some terminator

theorem Grows.keepsExits {older newer : Function} (grows : older.Grows newer) :
    older.KeepsExits newer := by
  intro id terminator isExit isSet
  obtain ⟨block, found, rfl⟩ := Option.map_eq_some_iff.mp isExit
  obtain ⟨later, foundLater, same, -⟩ := grows.closed found isSet
  rw [exit?, foundLater, Option.map_some, same]

end Function

/-- What is out of reach of a cursor stays as it is while code is written there. -/
structure Draft.Framed (start later : Draft) : Prop where
  /-- Only reservations are added to other blocks, and these only to the entry block. -/
  others : ∀ id block, start.function.block? id = some block → id ≠ start.cursor →
    later.function.block? id = some (block.appendAll (start.function.addedTo later.function id))
  /-- The cursor is where it was or on a block that there was not. -/
  cursor : later.cursor = start.cursor ∨ start.function.block? later.cursor = none
  /-- The cursor only leaves a block that has been closed. -/
  left : later.cursor ≠ start.cursor →
    ∃ block, later.function.block? start.cursor = some block ∧ block.isClosed = true

theorem Draft.Framed.refl (draft : Draft) : draft.Framed draft where
  others id block found _ := by
    rw [Function.addedTo, Function.reservationsSince_of_locals_eq rfl, ite_self,
      BasicBlock.appendAll_nil, found]
  cursor := .inl rfl
  left moved := absurd rfl moved

end Ir

namespace Lowering

variable {context : Context} {outer : List Ir.BlockId}

/-! ## Frames along moves -/

/-- Blocks that wait have been made since the start, and what is out of reach has been left alone. -/
structure Stage.Framed (start : Ir.Draft) (stage : Stage) : Prop where
  settled : stage.Settled
  grows : start.function.Grows stage.draft.function
  waiting : ∀ id ∈ stage.waiting, start.function.block? id = none
  framed : start.Framed stage.draft

namespace Stage.Framed

variable {start : Ir.Draft} {stage later : Stage}

/-- What there is not at some moment, there was not before. -/
theorem block?_eq_none (framed : stage.Framed start) {id : Ir.BlockId}
    (absent : stage.draft.function.block? id = none) : start.function.block? id = none := by
  by_contra present
  have still := framed.grows.isSome_block? (Option.ne_none_iff_isSome.mp present)
  rw [absent] at still
  cases still

/-- A block that has been closed is closed for good. -/
theorem isClosed_of_grows (grows : stage.draft.function.Grows later.draft.function) {id : Ir.BlockId}
    (closed : ∃ block, stage.draft.function.block? id = some block ∧ block.isClosed = true) :
    ∃ block, later.draft.function.block? id = some block ∧ block.isClosed = true := by
  obtain ⟨block, found, isClosed⟩ := closed
  obtain ⟨last, foundLast, same, -⟩ := grows.closed found isClosed
  refine ⟨last, foundLast, ?_⟩
  rw [Ir.BasicBlock.isClosed, same]
  exact isClosed

/-- Edits that stay with the cursor, or reserve slots. -/
theorem of_grows (framed : stage.Framed start) (settled : later.Settled)
    (grows : stage.draft.function.Grows later.draft.function)
    (cursor : later.draft.cursor = stage.draft.cursor)
    (waiting : ∀ id ∈ later.waiting, id ∈ stage.waiting ∨ stage.draft.function.block? id = none)
    (others : ∀ id block, stage.draft.function.block? id = some block → id ≠ stage.draft.cursor →
      later.draft.function.block? id =
        some (block.appendAll (stage.draft.function.addedTo later.draft.function id))) :
    later.Framed start where
  settled := settled
  grows := framed.grows.trans grows
  waiting := by
    intro id waits
    rcases waiting id waits with waited | absent
    · exact framed.waiting id waited
    · exact framed.block?_eq_none absent
  framed := by
    refine ⟨?_, ?_, ?_⟩
    · intro id block found elsewhere
      have here : id ≠ stage.draft.cursor := by
        rintro rfl
        rcases framed.framed.cursor with same | absent
        · exact elsewhere same
        · rw [absent] at found
          cases found
      rw [others id _ (framed.framed.others id block found elsewhere) here,
        Ir.BasicBlock.appendAll_appendAll, framed.grows.addedTo_append grows]
    · rw [cursor]
      exact framed.framed.cursor
    · rw [cursor]
      intro moved
      exact isClosed_of_grows grows (framed.framed.left moved)

/-- Edits that stay with the cursor and declare nothing. -/
theorem of_locals_eq (framed : stage.Framed start) (settled : later.Settled)
    (grows : stage.draft.function.Grows later.draft.function)
    (cursor : later.draft.cursor = stage.draft.cursor)
    (waiting : ∀ id ∈ later.waiting, id ∈ stage.waiting ∨ stage.draft.function.block? id = none)
    (locals : later.draft.function.locals = stage.draft.function.locals)
    (others : ∀ id, (stage.draft.function.block? id).isSome → id ≠ stage.draft.cursor →
      later.draft.function.block? id = stage.draft.function.block? id) : later.Framed start := by
  apply framed.of_grows settled grows cursor waiting
  intro id block found elsewhere
  rw [others id (by rw [found]; rfl) elsewhere, found, Ir.Function.addedTo,
    Ir.Function.reservationsSince_of_locals_eq locals, ite_self, Ir.BasicBlock.appendAll_nil]

/-- The cursor may go to a block that waits, once the one that it is on has been closed. -/
theorem moveTo {block : Ir.BlockId} {before after : List Ir.BlockId} (framed : stage.Framed start)
    (settled : later.Settled) (isClosed : stage.draft.isClosed = true)
    (waits : stage.waiting = before ++ block :: after) (waiting : later.waiting = before ++ after)
    (draft : later.draft = stage.draft.moveTo block) : later.Framed start where
  settled := settled
  grows := by
    rw [draft]
    exact framed.grows
  waiting := by
    intro id member
    apply framed.waiting id
    rw [waiting] at member
    rw [waits]
    rcases List.mem_append.mp member with early | late
    · exact List.mem_append_left _ early
    · exact List.mem_append_right _ (List.mem_cons_of_mem _ late)
  framed := by
    rw [draft]
    refine ⟨framed.framed.others, .inr (framed.waiting block (by simp [waits])), ?_⟩
    intro _
    by_cases moved : stage.draft.cursor = start.cursor
    · rw [Ir.Draft.isClosed_eq_any, moved] at isClosed
      obtain ⟨closed, found, isClosed⟩ := (Option.any_eq_true ..).mp isClosed
      exact ⟨closed, found, isClosed⟩
    · exact framed.framed.left moved

end Stage.Framed

/-- Every move leaves alone what is out of reach. -/
theorem Move.framed {start : Ir.Draft} {stage later : Stage} (move : Move context outer stage later)
    (framed : stage.Framed start) : later.Framed start := by
  have settled := move.settled framed.settled
  have grows := move.grows
  cases move with
  | write instruction =>
      refine framed.of_locals_eq settled grows rfl (fun _ => .inl) rfl ?_
      intro id _ elsewhere
      exact (Ir.Draft.block?_write _ instruction id).trans (if_neg (Ne.symm elsewhere))
  | receive =>
      refine framed.of_locals_eq settled grows (cursor_writeAll _ _) (fun _ => .inl)
        (locals_writeAll _ _) ?_
      intro id _ elsewhere
      exact (block?_writeAll _ _ id).trans (if_neg (Ne.symm elsewhere))
  | close terminator =>
      refine framed.of_locals_eq settled grows rfl (fun _ => .inl) rfl ?_
      intro id _ elsewhere
      exact (Ir.Draft.block?_close _ terminator id).trans (if_neg (Ne.symm elsewhere))
  | newBlock label =>
      refine framed.of_locals_eq settled grows rfl ?_ rfl ?_
      · intro id waits
        rcases List.mem_cons.mp waits with rfl | waits
        · exact .inr (Ir.Draft.block?_nextBlock _)
        · exact .inl waits
      · intro id present _
        refine (Ir.Draft.block?_newBlock _ label id).trans (if_neg ?_)
        rintro rfl
        rw [Ir.Draft.block?_nextBlock] at present
        cases present
  | declare name type =>
      apply framed.of_grows settled grows rfl fun _ => .inl
      intro id block found _
      have added : stage.draft.function.addedTo (stage.draft.reserve name type).2.function id =
          if stage.draft.function.entry = id then [.reserve stage.draft.nextLocal type] else [] := by
        simp [Ir.Function.addedTo, Ir.Function.reservationsSince, eq_comm]
      show (stage.draft.reserve name type).2.function.block? id = some (block.appendAll
        (stage.draft.function.addedTo (stage.draft.reserve name type).2.function id))
      rw [Ir.Draft.block?_reserve, added, found]
      split
      · rfl
      · rw [Ir.BasicBlock.appendAll_nil]
  | moveTo block before after isClosed waits =>
      exact framed.moveTo settled isClosed waits rfl rfl
  | announce | declareBuiltin | discard | enterBlock | leaveBlock | enterLoop | leaveLoop =>
      exact ⟨settled, framed.grows, framed.waiting, framed.framed⟩

/-- Shared slots are only added. -/
theorem Move.globals {stage later : Stage} (move : Move context outer stage later) :
    stage.state.module.globals <+: later.state.module.globals ∧
      later.state.module.name = stage.state.module.name := by
  cases move with
  | announce name target =>
      refine ⟨?_, State.name_reserved _ _⟩
      show _ <+: (stage.state.reserved (target.resultCount - 1)).module.globals
      rw [State.reserved, SpillSlots.reserve, extendBy_eq]
      exact List.prefix_append _ _
  | declareBuiltin name builtin external =>
      refine ⟨?_, State.name_imported _ _⟩
      show _ <+: (stage.state.imported external).module.globals
      exact (State.progress_imported stage.state external).2 ▸ List.prefix_refl _
  | write | receive | declare | discard | newBlock | close | moveTo | enterBlock | leaveBlock
  | enterLoop | leaveLoop => exact ⟨List.prefix_refl _, rfl⟩

theorem Moves.globals {stage later : Stage} (moves : Moves context outer stage later) :
    stage.state.module.globals <+: later.state.module.globals ∧
      later.state.module.name = stage.state.module.name := by
  induction moves with
  | refl => exact ⟨List.prefix_refl _, rfl⟩
  | tail _ move ih => exact ⟨ih.1.trans move.globals.1, move.globals.2.trans ih.2⟩

/-! ## Statements -/

/-- What the loops around a statement lead to. -/
def Loops.targets (loops : Loops) : List Ir.BlockId :=
  loops.enclosing.flatMap fun frame => [frame.onBreak, frame.onContinue]

/-- From inside a statement, all that the loops around it lead to comes from outside. -/
theorem Loops.lead_targets (loops : Loops) (waiting : List Ir.BlockId) :
    loops.Lead loops.targets waiting := by
  intro frame enclosing exit
  refine .inr (List.mem_flatMap.mpr ⟨frame, enclosing, ?_⟩)
  cases exit <;> simp [LoopFrame.target]

/-- What a step leaves alone: blocks out of reach of the cursor, and what there is in the lists of slots,
functions and builtins. -/
structure State.Framed (state later : State) : Prop where
  blocks : state.draft.Framed later.draft
  /-- Nothing is put in front of what stands under the cursor. -/
  here : ∀ block, state.draft.function.block? state.draft.cursor = some block →
    ∃ longer, later.draft.function.block? state.draft.cursor = some longer ∧
      block.instructions <+: longer.instructions
  /-- The cursor is on a block. -/
  present : (later.draft.function.block? later.draft.cursor).isSome
  exits : state.draft.function.KeepsExits later.draft.function
  entry : later.draft.function.entry = state.draft.function.entry
  locals : state.draft.function.locals <+: later.draft.function.locals
  slots : state.spills.slots <+: later.spills.slots
  globals : state.module.globals <+: later.module.globals
  externals : state.module.externals <+: later.module.externals
  functions : later.module.functions = state.module.functions
  name : later.module.name = state.module.name

/-- Moves from where nothing waits leave alone what is out of reach. -/
theorem Moves.framed {state : State} {finish : Stage}
    (moves : Moves context outer (.resting state) finish)
    (settled : (Stage.resting state).Settled) : state.Framed finish.state := by
  have start : (Stage.resting state).Framed state.draft :=
    ⟨settled, .refl _, (fun _ waits => nomatch waits), Ir.Draft.Framed.refl _⟩
  have framed := moves.keeps Move.framed start
  have grows := framed.grows
  obtain ⟨extends_, functions, -⟩ := moves.progress
  exact ⟨framed.framed, fun _ found => grows.kept found, framed.settled.cursor, grows.keepsExits,
    grows.entry, grows.locals, extends_.slots, moves.globals.1, extends_.externals, functions,
    moves.globals.2⟩

/-- Along a run of moves no terminator is ever replaced. -/
theorem Moves.exists_isChain {start finish : Stage} (moves : Moves context outer start finish) :
    ∃ stages, List.IsChain (Move context outer) (start :: stages) ∧
      (start :: stages).getLast (List.cons_ne_nil _ _) = finish ∧
      (start :: stages).Pairwise fun earlier later =>
        earlier.draft.function.KeepsExits later.draft.function := by
  obtain ⟨stages, isChain, isLast⟩ := List.exists_isChain_cons_of_relationReflTransGen moves
  refine ⟨stages, isChain, isLast, ?_⟩
  let grows (earlier later : Stage) : Prop :=
    earlier.draft.function.Grows later.draft.function
  have : IsTrans Stage grows := ⟨fun _ _ _ => Ir.Function.Grows.trans⟩
  have growing : List.IsChain grows (start :: stages) := isChain.imp fun _ _ => Move.grows
  exact growing.pairwise.imp Ir.Function.Grows.keepsExits

end Lowering

open Lowering in
/-- Wherever the cursor is on an open block, a statement touches nothing that is finished, whether it
succeeds or fails. Other blocks stay as they are, the entry block apart, which receives the slots that are
reserved meanwhile; the lists of slots and builtins grow at their ends; and functions that have been
lowered are not touched. On the way from the state before to the state after, no terminator that has been
set is replaced, also in blocks that the statement has made. -/
theorem Statement.framed_lower (context : Context) (statement : Statement) (state : State)
    (entry : (state.draft.function.block? state.draft.function.entry).isSome)
    (isOpen : state.draft.IsOpen) :
    state.Framed ((statement.lower context).after state).2 ∧
      ∃ (outer : List Ir.BlockId) (stages : List Stage),
        List.IsChain (Move context outer) (.resting state :: stages) ∧
        ((Stage.resting state :: stages).getLast (List.cons_ne_nil _ _)).state =
          ((statement.lower context).after state).2 ∧
        (Stage.resting state :: stages).Pairwise fun earlier later =>
          earlier.draft.function.KeepsExits later.draft.function := by
  have settled : (Stage.resting state).Settled := by
    obtain ⟨block, found, -⟩ := isOpen
    exact ⟨entry, by simp [Stage.resting, found], .nil, fun _ waits => nomatch waits⟩
  obtain ⟨finish, moves, after, -⟩ :=
    runs_statement statement ⟨settled, rfl, state.loops.lead_targets []⟩ isOpen
  obtain ⟨stages, isChain, rfl, keeps⟩ := Moves.exists_isChain moves
  have after : ((statement.lower context).after state).2 =
    ((Stage.resting state :: stages).getLast (List.cons_ne_nil _ _)).state := after
  rw [after]
  exact ⟨Moves.framed moves settled, state.loops.targets, stages, isChain, rfl, keeps⟩

/-- In the second block of a function, inside a loop that goes on in the third one. -/
def insideLoop : Lowering.State where
  draft := (((Ir.Draft.start (.create "f" [] .void 0)).newBlock "body").2.newBlock "after").2.moveTo ⟨1⟩
  scope := .empty
  loops := ⟨[⟨⟨2⟩, ⟨2⟩⟩]⟩
  spills := .empty
  module := .empty "m"

open Lowering in
theorem Statement.framed_lower_insideLoop :
    (insideLoop.draft.function.block? insideLoop.draft.function.entry).isSome ∧
      insideLoop.draft.IsOpen ∧
      insideLoop.Framed (((Statement.block [.declaration [⟨"a", "u8"⟩] none, .breakLoop,
        .label "late"]).lower ⟨.empty .strict, .standard, .empty⟩).after insideLoop).2 :=
  have isOpen : insideLoop.draft.IsOpen := ⟨_, rfl, rfl⟩
  ⟨rfl, isOpen, (Statement.framed_lower _ _ insideLoop rfl isOpen).1⟩

end YulLowering
