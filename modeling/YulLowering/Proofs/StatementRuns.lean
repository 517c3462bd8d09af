import Mathlib.Data.List.Forall2
import YulLowering.Lowering.Statements
import YulLowering.Proofs.Runs

/-!
# Statements as runs of moves

A statement leaves nothing behind that it has begun: the values it computes are used, the blocks it
makes are entered, and a loop it enters is left. Where it closes the block under the cursor, the
edges go to blocks that the statement enters later, to a target of a loop around it, or back to the
head of a loop.
-/

namespace YulLowering.Lowering

variable {context : Context} {outer : List Ir.BlockId} {start : Stage}

/-- A scope in which nothing but declarations has been added to another one. -/
structure Scope.Extends (scope later : Scope) : Prop where
  bindings : scope.bindings <+: later.bindings
  openings : later.openings = scope.openings

namespace Scope.Extends

theorem refl (scope : Scope) : scope.Extends scope :=
  ⟨List.prefix_refl _, rfl⟩

theorem trans {scope middle later : Scope} (first : scope.Extends middle)
    (second : middle.Extends later) : scope.Extends later :=
  ⟨first.bindings.trans second.bindings, second.openings.trans first.openings⟩

theorem bind (scope : Scope) (binding : Binding) : scope.Extends (scope.bind binding) :=
  ⟨List.prefix_append _ _, rfl⟩

/-- What has been declared in a block is hidden when the block is closed. -/
theorem leave_eq {scope later : Scope} (extends_ : scope.enter.Extends later) :
    later.leave = scope := by
  obtain ⟨⟨declared, bindings⟩, openings⟩ := extends_
  unfold Scope.leave
  rw [openings, ← bindings]
  simp [Scope.enter]

end Scope.Extends

/-- While a statement is lowered, the loops around it and the announced calls are those there were
at its start, and what was visible still is; the pending values and the waiting blocks are told. -/
structure Underway (start : Stage) (pending : List Ir.Value) (waiting : List Ir.BlockId)
    (stage : Stage) : Prop where
  loops : stage.state.loops = start.state.loops
  scope : start.state.scope.Extends stage.state.scope
  announced : stage.announced = start.announced
  pending : stage.pending = pending
  waiting : stage.waiting = waiting

/-- After a statement nothing is left that it has begun. -/
abbrev Performed (start finish : Stage) : Prop :=
  Underway start start.pending start.waiting finish

theorem Underway.refl (stage : Stage) : Performed stage stage :=
  ⟨rfl, .refl _, rfl, rfl, rfl⟩

/-- A statement in the course of another one. -/
theorem Underway.after {stage finish : Stage} {pending : List Ir.Value}
    {waiting : List Ir.BlockId} (before : Underway start pending waiting stage)
    (performed : Performed stage finish) : Underway start pending waiting finish where
  loops := performed.loops.trans before.loops
  scope := before.scope.trans performed.scope
  announced := performed.announced.trans before.announced
  pending := performed.pending.trans before.pending
  waiting := performed.waiting.trans before.waiting

/-- The use of values in the course of a statement aside, what waits is told by the last part. -/
theorem Underway.trans {stage finish : Stage} {pending : List Ir.Value}
    {waiting more : List Ir.BlockId} (before : Underway start pending waiting stage)
    (after : Underway stage stage.pending more finish) : Underway start pending more finish where
  loops := after.loops.trans before.loops
  scope := before.scope.trans after.scope
  announced := after.announced.trans before.announced
  pending := after.pending.trans before.pending
  waiting := after.waiting

/-- Values and blocks in the course of a statement. -/
theorem Underway.begun {stage finish : Stage} {pending : List Ir.Value} {values : List Ir.Value}
    {waiting blocks : List Ir.BlockId} (before : Underway start pending waiting stage)
    (begun : Begun stage values blocks finish) :
    Underway start (values.reverse ++ pending) (blocks.reverse ++ waiting) finish where
  loops := begun.loops.trans before.loops
  scope := by
    rw [begun.scope]
    exact before.scope
  announced := begun.announced.trans before.announced
  pending := by rw [begun.pending, before.pending]
  waiting := by rw [begun.waiting, before.waiting]

theorem Begun.underway {stage : Stage} {values : List Ir.Value} {blocks : List Ir.BlockId}
    (begun : Begun start values blocks stage) :
    Underway start (values.reverse ++ start.pending) (blocks.reverse ++ start.waiting) stage :=
  (Underway.refl start).begun begun

/-! ## Conditions and expressions as statements -/

theorem runs_lowerToCondition (expression : Expression) (isOpen : start.draft.IsOpen) :
    Runs context outer start (expression.lowerToCondition context) fun value finish =>
      Evaluated start [value] finish ∧ value.type = .bool := by
  apply Runs.bind (runs_lower expression isOpen)
  intro operand stage _ evaluated
  cases isBool : operand.type.isBool with
  | true =>
      have after : (Step.write fun draft => draft.toCondition operand).after stage.state =
          (.ok operand, stage.state) := by
        simp [Ir.Draft.toCondition, isBool]
      exact .of_moves .refl after ⟨evaluated, by simpa [Ir.ValueType.isBool] using isBool⟩
  | false =>
      apply (runs_write [operand] evaluated (Ir.Draft.toCondition_eq _ _ isBool) rfl
        (.testNonZero operand isBool)).mono
      rintro value finish ⟨rfl, tested⟩
      exact ⟨tested, rfl⟩

/-- An expression that is a statement may leave a value that nothing uses. -/
theorem runs_perform (expression : Expression) (isOpen : start.draft.IsOpen) :
    Runs context outer start (expression.perform context) fun _ finish =>
      Performed start finish := by
  have discards {stage : Stage} (value : Option Ir.Value)
      (evaluated : Evaluated start value.toList stage) :
      Runs context outer stage (pure () : Step Unit) fun _ finish => Performed start finish := by
    cases value with
    | none => exact .pure evaluated.underway
    | some value =>
        apply Runs.of_state_eq (.single (.discard value start.pending evaluated.pending)) rfl
        have scope : start.state.scope.Extends stage.state.scope := evaluated.underway.scope
        exact .pure ⟨evaluated.loops, scope, evaluated.announced, rfl, evaluated.waiting⟩
  have evaluates (other : Expression) :
      Runs context outer start (do let _ ← other.lower context) fun _ finish =>
        Performed start finish := by
    apply Runs.bind (runs_lower other isOpen)
    intro value stage _ evaluated
    exact discards (some value) evaluated
  cases expression with
  | call callee arguments =>
      apply Runs.ofExcept_bind
      intro target resolved
      apply Runs.bind (runs_invokeWith resolved isOpen (runs_lowerEach arguments isOpen))
      intro outcome stage _ evaluated
      exact discards outcome.first evaluated
  | identifier name => exact evaluates (.identifier name)
  | literal literal => exact evaluates (.literal literal)
  | instructionCall mnemonic arguments => exact evaluates (.instructionCall mnemonic arguments)
  | instruction mnemonic => exact evaluates (.instruction mnemonic)

/-! ## Declarations and assignments -/

theorem runs_declareAll (declared : List TypedName) (isOpen : start.draft.IsOpen) :
    Runs context outer start (declareAll context declared) fun bindings finish =>
      Performed start finish ∧ finish.draft.IsOpen ∧
        start.state.scope.bindings ++ bindings = finish.state.scope.bindings := by
  induction declared generalizing start with
  | nil => exact .pure ⟨.refl _, isOpen, List.append_nil _⟩
  | cons head rest ih =>
      obtain ⟨name, typeName⟩ := head
      apply Runs.ofExcept_bind
      intro type _
      let stage : Stage := { start with state := start.state.declared name type }
      have declares : Runs context outer start (Step.declare name type) fun slot finish =>
          slot = start.draft.nextLocal ∧ finish = stage :=
        .of_move (.declare name type) rfl ⟨rfl, rfl⟩
      apply Runs.bind declares
      rintro _ _ _ ⟨rfl, rfl⟩
      apply Runs.bind (ih (Ir.Draft.isOpen_reserve isOpen name type))
      rintro bindings finish _ ⟨performed, stillOpen, scope⟩
      have declared : start.state.scope.Extends stage.state.scope := .bind _ _
      refine .pure ⟨⟨performed.loops, declared.trans performed.scope, performed.announced,
        performed.pending, performed.waiting⟩, stillOpen, ?_⟩
      rw [← scope]
      simp [stage, State.declared, Scope.bind]

/-- What several names mean. -/
abbrev Scope.Means (scope : Scope) : List String → List Binding → Prop :=
  List.Forall₂ fun name binding => scope.lookup name = some binding

theorem Scope.Means.mem {scope : Scope} {names : List String} {bindings : List Binding}
    (means : scope.Means names bindings) : ∀ binding ∈ bindings, binding ∈ scope.bindings := by
  induction means with
  | nil => simp
  | cons found _ ih => exact List.forall_mem_cons.mpr ⟨(Scope.mem_of_lookup found).1, ih⟩

theorem runs_lookups (names : List String) :
    Runs context outer start (names.mapM Step.lookup) fun bindings finish =>
      finish = start ∧ start.state.scope.Means names bindings := by
  induction names with
  | nil => exact .pure ⟨rfl, .nil⟩
  | cons name rest ih =>
      rw [List.mapM_cons]
      apply Runs.bind (runs_lookup name)
      rintro binding _ _ ⟨rfl, found⟩
      apply Runs.bind ih
      rintro bindings _ _ ⟨rfl, means⟩
      exact .pure ⟨rfl, .cons found means⟩

theorem after_spill {index : Nat} {slot : Ir.GlobalId} {state : State}
    (found : state.spills.slots[index]? = some slot) :
    (Step.spill index).after state = (.ok slot, state) := by
  rw [Step.spill, Step.after_bind]
  simp [SpillSlots.slot?, found]

/-- As long as there are enough spill slots, taking results out of them succeeds. -/
theorem after_unspill (targets : List Binding) (index : Nat) (state : State)
    (enough : index + targets.length ≤ state.spills.slots.length) :
    (unspill index targets).after state =
      (.ok (), { state with
        draft := writeAll state.draft (transferCode state.draft.function.valueSupply
          ((targets.zip (state.spills.slots.drop index)).map .taken)) }) := by
  induction targets generalizing index state with
  | nil => rfl
  | cons target rest ih =>
      have bound : index < state.spills.slots.length := by
        simp only [List.length_cons] at enough
        omega
      rw [unspill, Step.after_bind, after_spill (List.getElem?_eq_getElem bound)]
      simp only [Step.after_bind, Step.modify, Step.after_write, Ir.Draft.load_eq,
        Ir.Draft.store_eq]
      rw [ih, List.drop_eq_getElem_cons bound]
      · rfl
      · simp only [List.length_cons] at enough
        show index + 1 + rest.length ≤ state.spills.slots.length
        omega

/-- The results of a call go to variables: the first directly, the others through spill slots. -/
theorem after_receive (signature : Signature) (arguments : List Ir.Value) (first : Binding)
    (others : List Binding) (state : State) {result : Ir.Value}
    (hasResult : state.draft.callResult signature.resultType = some result)
    (enough : others.length ≤ state.spills.slots.length) (fault : Fault) :
    (signature.write arguments >>= fun outcome =>
      match outcome.first with
      | none => throw fault
      | some value => do
        Step.modify fun draft => draft.store (.ofLocal first.slot) value
        unspill 0 others : Step Unit).after state =
      (.ok (), { state with
        draft := writeAll state.draft (receiveCode result (.function signature.id) arguments first
          (others.zip state.spills.slots)) }) := by
  rw [Signature.write, bind_assoc, Step.after_bind, Step.after_write, Ir.Draft.call_eq, hasResult]
  simp only [pure_bind, Step.after_bind, Step.modify, Step.after_write, Ir.Draft.store_eq]
  rw [after_unspill _ _ _ (by simpa using enough)]
  have supply : state.draft.function.valueSupply = result.id.index := by
    rw [Ir.Draft.callResult_eq_some hasResult]
    rfl
  simp [receiveCode, supply, Ir.Instruction.dest?]

/-- A builtin that is called has at most one result. -/
theorem length_results_le_of_external {builtin : Builtin} {external : Ir.External}
    (isExternal : context.external builtin = .ok external) : builtin.results.length ≤ 1 := by
  unfold Context.external at isExternal
  by_cases several : builtin.results.length > 1
  · rw [if_pos several] at isExternal
    cases isExternal
  · omega

theorem runs_assignResults (first : Binding) (others : List Binding) (callee : String)
    (arguments : List Expression) (isOpen : start.draft.IsOpen) (several : others ≠ [])
    (firstInScope : first ∈ start.state.scope.bindings)
    (inScope : ∀ target ∈ others, target ∈ start.state.scope.bindings) :
    Runs context outer start (assignResults context first others callee arguments)
      fun _ finish => Performed start finish := by
  rw [assignResults]
  apply Runs.ofExcept_bind
  intro target resolved
  dsimp only
  split
  · exact .throw _
  · next agrees =>
    have count : target.resultCount = others.length + 1 := Decidable.not_not.mp agrees
    let announced : Stage := { start with
      state := start.state.reserved (target.resultCount - 1)
      announced := target :: start.announced }
    have announces : Runs context outer start (Step.reserveSpills (others.length + 1 - 1))
        fun _ finish => finish = announced := by
      rw [← count]
      exact .of_move (.announce callee target resolved) rfl rfl
    apply Runs.bind announces
    rintro _ _ _ rfl
    have pool : others.length ≤ announced.state.spills.slots.length := by
      have enough := start.state.le_length_slots_reserved (target.resultCount - 1)
      rw [count] at enough
      simpa [announced, count] using enough
    cases target with
    | builtin builtin =>
        rw [Target.invoke, Target.invokeWith, bind_assoc]
        apply Runs.ofExcept_bind
        intro external isExternal
        have few := length_results_le_of_external isExternal
        have positive := List.length_pos_iff.mpr several
        simp only [Target.resultCount] at count
        omega
    | function signature =>
        rw [Target.invoke, Target.invokeWith, bind_assoc]
        have evaluates : Runs context outer announced (Expression.lowerEach context arguments) _ :=
          runs_lowerEach arguments isOpen
        apply Runs.bind evaluates
        intro values stage _ evaluated
        cases hasResult : stage.draft.callResult signature.resultType with
        | none =>
            apply Runs.bind (runs_signature_write resolved values evaluated)
            rintro outcome finish _ ⟨isFirst, -⟩
            rw [hasResult] at isFirst
            rw [isFirst]
            exact .throw _
        | some result =>
            have enough : others.length ≤ stage.state.spills.slots.length := by
              rw [evaluated.spills]
              exact pool
            have length : (others.zip stage.state.spills.slots).length = others.length := by
              rw [List.length_zip, Nat.min_eq_left enough]
            refine .of_move (.receive callee signature result values start.pending first
              (others.zip stage.state.spills.slots) start.announced evaluated.isOpen resolved
              evaluated.announced ?several ?count hasResult evaluated.pending ?head ?tail ?slots)
              (after_receive signature values first others stage.state hasResult enough _)
              ⟨evaluated.loops, evaluated.underway.scope, rfl, rfl, evaluated.waiting⟩
            case several => exact List.length_pos_iff.mp (length ▸ List.length_pos_iff.mpr several)
            case count => rw [length]; exact count.symm
            case head => rw [evaluated.scope]; exact firstInScope
            case tail =>
              intro pair isOther
              rw [evaluated.scope]
              exact inScope _ (List.of_mem_zip isOther).1
            case slots =>
              rw [length, List.zip_eq_zip_take_min, Nat.min_eq_left enough, List.take_length,
                List.map_snd_zip (List.length_take_le ..)]

/-- A variable is stored to once its value has been computed. -/
theorem runs_store {stage : Stage} {target : Binding} {value : Ir.Value}
    (evaluated : Evaluated start [value] stage) (inScope : target ∈ stage.state.scope.bindings) :
    Runs context outer stage (Step.modify fun draft => draft.store (.ofLocal target.slot) value)
      fun _ finish => Performed start finish :=
  .of_move (.write (.store (.ofLocal target.slot) value) start.pending evaluated.isOpen
    evaluated.pending (.store target value inScope)) rfl
    ⟨evaluated.loops, evaluated.underway.scope, evaluated.announced, rfl, evaluated.waiting⟩

theorem runs_assign (targets : List Binding) (value : Expression) (isOpen : start.draft.IsOpen)
    (inScope : ∀ target ∈ targets, target ∈ start.state.scope.bindings) :
    Runs context outer start (assign context targets value) fun _ finish =>
      Performed start finish := by
  unfold assign
  split
  · exact .throw _
  · next target =>
      apply Runs.bind (runs_lower value isOpen)
      intro result stage _ evaluated
      refine runs_store evaluated ?_
      rw [evaluated.scope]
      exact inScope _ (List.mem_singleton_self _)
  · next first others callee arguments severalTargets =>
      obtain ⟨firstInScope, othersInScope⟩ := List.forall_mem_cons.mp inScope
      exact runs_assignResults first others callee arguments isOpen severalTargets firstInScope
        othersInScope
  · exact .throw _

/-! ## Moving on -/

/-- The loops around a statement lead to blocks that wait or that come from outside. -/
def Loops.Lead (outer waiting : List Ir.BlockId) (loops : Loops) : Prop :=
  ∀ frame ∈ loops.enclosing, ∀ exit : LoopExit,
    frame.target exit ∈ waiting ∨ frame.target exit ∈ outer

theorem Loops.Lead.mono {waiting more : List Ir.BlockId} {loops : Loops}
    (lead : loops.Lead outer waiting) (subset : waiting ⊆ more) : loops.Lead outer more := by
  intro frame inside exit
  exact (lead frame inside exit).imp_left fun waits => subset waits

/-- What a statement relies on. -/
structure Ready (outer : List Ir.BlockId) (stage : Stage) : Prop where
  settled : stage.Settled
  idle : stage.pending = []
  lead : stage.state.loops.Lead outer stage.waiting

/-- In the course of a statement another one can be lowered if the loops around it still lead to
blocks that wait. -/
theorem Underway.ready {stage : Stage} {waiting rest : List Ir.BlockId}
    (underway : Underway start start.pending waiting stage) (settled : start.Settled)
    (idle : start.pending = []) (lead : start.state.loops.Lead outer rest)
    (moves : Moves context outer start stage) (subset : rest ⊆ waiting) : Ready outer stage where
  settled := moves.settled settled
  idle := underway.pending.trans idle
  lead := by
    rw [underway.loops, underway.waiting]
    exact lead.mono subset

/-- Where the block under the cursor has been closed, nothing is added to it. -/
theorem moves_fallThrough (context : Context) {stage : Stage} (settled : stage.Settled)
    (idle : stage.pending = []) {target : Ir.BlockId} (exits : Exits outer stage (.jump target)) :
    Moves context outer stage (stage.redraft (stage.draft.fallThrough target)) ∧
      (stage.draft.fallThrough target).isClosed = true := by
  unfold Ir.Draft.fallThrough
  cases closed : stage.draft.isClosed with
  | true => exact ⟨.refl, closed⟩
  | false =>
      obtain ⟨block, found⟩ := Option.isSome_iff_exists.mp settled.cursor
      have isOpen := Ir.Draft.isOpen_of_isClosed_eq_false found closed
      have move : Move context outer stage _ := .close (.jump target) isOpen idle exits
      rw [Stage.redraft_eq_of_idle idle] at move
      exact ⟨.single move, Ir.Draft.isClosed_close isOpen (by simp)⟩

/-- The cursor has gone to a block that has been made before and is still empty. -/
structure Arrived (block : Ir.BlockId) (stage : Stage) : Prop where
  cursor : stage.draft.cursor = block
  outside : block ≠ stage.draft.function.entry
  fresh : ∃ label, stage.draft.function.block? block = some (.empty block label)

theorem Arrived.isOpen {block : Ir.BlockId} {stage : Stage} (arrived : Arrived block stage) :
    stage.draft.IsOpen := by
  obtain ⟨label, found⟩ := arrived.fresh
  exact ⟨.empty block label, arrived.cursor ▸ found, rfl⟩

/-- In the course of a statement control goes on at a block that has been made before. -/
structure Entered (start : Stage) (pending : List Ir.Value) (waiting : List Ir.BlockId)
    (block : Ir.BlockId) (stage : Stage) : Prop
    extends Underway start pending waiting stage, Arrived block stage

/-- From a closed block the cursor goes to one that waits. -/
theorem entered_moveTo {stage : Stage} {pending : List Ir.Value} {block : Ir.BlockId}
    (before after : List Ir.BlockId) (settled : stage.Settled)
    (underway : Underway start pending (before ++ block :: after) stage) :
    Entered start pending (before ++ after) block
      { stage.redraft (stage.draft.moveTo block) with waiting := before ++ after } := by
  obtain ⟨-, outside, fresh⟩ := settled.fresh block (by simp [underway.waiting])
  exact ⟨⟨underway.loops, underway.scope, underway.announced, underway.pending, rfl⟩,
    ⟨rfl, outside, fresh⟩⟩

/-- The block under the cursor is closed and the cursor moves on. -/
theorem runs_close {stage : Stage} {terminator : Ir.Terminator} {block : Ir.BlockId}
    (before after : List Ir.BlockId) (settled : stage.Settled) (idle : start.pending = [])
    (isOpen : stage.draft.IsOpen) (isSet : terminator ≠ .unreachable)
    (exits : Exits outer stage terminator)
    (underway : Underway start (terminator.operands.reverse ++ start.pending)
      (before ++ block :: after) stage) :
    Runs context outer stage (Step.modify fun draft => (draft.close terminator).moveTo block)
      fun _ finish => Entered start start.pending (before ++ after) block finish ∧
        finish.state = { stage.state with draft := (stage.draft.close terminator).moveTo block } := by
  have used : stage.pending = terminator.operands.reverse := by
    rw [underway.pending, idle, List.append_nil]
  let closed : Stage := { stage.redraft (stage.draft.close terminator) with pending := [] }
  have closes : Move context outer stage closed := .close terminator isOpen used exits
  have enters : Move context outer closed _ :=
    .moveTo block before after (Ir.Draft.isClosed_close isOpen isSet) underway.waiting
  refine .of_moves (.tail (.single closes) enters) rfl ⟨?_, rfl⟩
  exact entered_moveTo before after (closes.settled settled)
    ⟨underway.loops, underway.scope, underway.announced, idle.symm, underway.waiting⟩

/-- Control falls through to a block unless the block under the cursor has been left already, and
the cursor moves on. -/
theorem runs_fallThrough {stage : Stage} {target block : Ir.BlockId}
    (before after : List Ir.BlockId) (settled : stage.Settled) (idle : start.pending = [])
    (exits : Exits outer stage (.jump target))
    (underway : Underway start start.pending (before ++ block :: after) stage) :
    Runs context outer stage (Step.modify fun draft => (draft.fallThrough target).moveTo block)
      fun _ finish => Entered start start.pending (before ++ after) block finish ∧
        finish.state = { stage.state with draft := (stage.draft.fallThrough target).moveTo block } := by
  obtain ⟨moves, isClosed⟩ :=
    moves_fallThrough context settled (underway.pending.trans idle) exits
  have enters : Move context outer (stage.redraft (stage.draft.fallThrough target)) _ :=
    .moveTo block before after isClosed underway.waiting
  refine .of_moves (moves.tail enters) rfl ⟨?_, rfl⟩
  exact entered_moveTo before after (moves.settled settled)
    ⟨underway.loops, underway.scope, underway.announced, underway.pending, underway.waiting⟩

/-! ## New blocks -/

/-- A stage with one more block that waits. -/
def Stage.withBlock (stage : Stage) (label : String) : Stage :=
  { stage.redraft (stage.draft.newBlock label).2 with
    waiting := stage.draft.nextBlock :: stage.waiting }

theorem runs_newBlock {stage : Stage} (label : String) :
    Runs context outer stage (newBlock label) fun block finish =>
      block = stage.draft.nextBlock ∧ finish = stage.withBlock label :=
  .of_move (.newBlock label) rfl ⟨rfl, rfl⟩

theorem Begun.withBlock {stage : Stage} {values : List Ir.Value} {blocks : List Ir.BlockId}
    (begun : Begun start values blocks stage) (label : String) :
    Begun start values (blocks ++ [stage.draft.nextBlock]) (stage.withBlock label) where
  isOpen := Ir.Draft.isOpen_newBlock begun.isOpen label
  cursor := begun.cursor
  scope := begun.scope
  loops := begun.loops
  spills := begun.spills
  pending := begun.pending
  waiting := by
    simp [Stage.withBlock, begun.waiting]
  announced := begun.announced

theorem Underway.withBlock {stage : Stage} {pending : List Ir.Value} {waiting : List Ir.BlockId}
    (underway : Underway start pending waiting stage) (label : String) :
    Underway start pending (stage.draft.nextBlock :: waiting) (stage.withBlock label) where
  loops := underway.loops
  scope := underway.scope
  announced := underway.announced
  pending := underway.pending
  waiting := congrArg _ underway.waiting

/-- Where there is a block under the cursor, statements find an open one. -/
theorem runs_openBlock (settled : start.Settled) :
    Runs context outer start openBlock fun _ finish =>
      Performed start finish ∧ finish.draft.IsOpen ∧
        (start.draft.IsOpen → finish.state = start.state) := by
  apply Runs.inspect_bind
  cases closed : start.draft.isClosed with
  | false =>
      obtain ⟨block, found⟩ := Option.isSome_iff_exists.mp settled.cursor
      exact .pure ⟨.refl start, Ir.Draft.isOpen_of_isClosed_eq_false found closed, fun _ => rfl⟩
  | true =>
      apply Runs.bind (runs_newBlock "unreachable")
      rintro _ _ moves ⟨rfl, rfl⟩
      have stillClosed : (start.withBlock "unreachable").draft.isClosed = true := by
        rw [Stage.withBlock, Stage.draft, Stage.redraft, Ir.Draft.isClosed_newBlock]
        exact closed
      have entered := entered_moveTo [] start.waiting (moves.settled settled)
        ((Underway.refl start).withBlock "unreachable")
      exact .of_move (.moveTo _ [] start.waiting stillClosed rfl) rfl
        ⟨entered.toUnderway, entered.isOpen, fun isOpen => by simp [isOpen.isClosed] at closed⟩

/-- The blocks for the cases of a switch. What is looked up among the constants could as well be looked
up among the cases themselves, and the block of the default arm is that of the last one. -/
structure Arms (scrutinee : Ir.Value) (cases : List Case) (blocks : SwitchBlocks) : Prop where
  length : blocks.arms.length = cases.length
  constants : ∀ arm ∈ blocks.constants, scrutinee.type.Holds arm.1 ∧ arm.2 ∈ blocks.arms
  default : ∀ block ∈ blocks.default, block ∈ blocks.arms
  find_constants : ∀ content,
    (blocks.constants.find? fun arm => arm.1 == content).map Prod.snd =
      (((cases.map Case.value).zip blocks.arms).find? fun arm =>
        arm.1.any fun literal => literal.value? == some content).map Prod.snd
  find_default : blocks.default =
    (((cases.map Case.value).zip blocks.arms).reverse.find? fun arm => arm.1.isNone).map Prod.snd

namespace Arms

variable {scrutinee : Ir.Value} {cases : List Case} {blocks : SwitchBlocks} {block : Ir.BlockId}
  {body : List Statement}

theorem nil (scrutinee : Ir.Value) : Arms scrutinee [] ⟨[], [], none⟩ where
  length := rfl
  constants := by simp
  default := by simp
  find_constants := fun _ => rfl
  find_default := rfl

/-- An arm with a constant comes in front of the others. -/
theorem consCase (arms : Arms scrutinee cases blocks) {literal : Literal} {constant : Nat}
    (fits : literal.valueAt scrutinee.type = .ok constant) :
    Arms scrutinee (⟨some literal, body⟩ :: cases) { blocks with
      arms := block :: blocks.arms, constants := (constant, block) :: blocks.constants } where
  length := congrArg (· + 1) arms.length
  constants := by
    intro arm isArm
    rcases List.mem_cons.mp isArm with rfl | isArm
    · exact ⟨(Literal.valueAt_eq_ok_iff.mp fits).2, List.mem_cons_self⟩
    · exact (arms.constants arm isArm).imp_right (List.mem_cons_of_mem _)
  default := fun other isDefault => List.mem_cons_of_mem _ (arms.default other isDefault)
  find_constants := by
    intro content
    have isValue : literal.value? = some constant := (Literal.valueAt_eq_ok_iff.mp fits).1
    simp only [List.map_cons, List.zip_cons_cons, List.find?_cons, Option.any_some, isValue,
      Option.some_beq_some]
    cases constant == content with
    | true => rfl
    | false => exact arms.find_constants content
  find_default := by
    simpa [List.find?_append] using arms.find_default

/-- A default arm in front of the others counts if there is no other one. -/
theorem consDefault (arms : Arms scrutinee cases blocks) :
    Arms scrutinee (⟨none, body⟩ :: cases) { blocks with
      arms := block :: blocks.arms, default := some (blocks.default.getD block) } where
  length := congrArg (· + 1) arms.length
  constants := fun arm isArm => (arms.constants arm isArm).imp_right (List.mem_cons_of_mem _)
  default := by
    intro other isDefault
    obtain rfl := Option.some.inj isDefault
    cases later : blocks.default with
    | none => exact List.mem_cons_self
    | some block => exact List.mem_cons_of_mem _ (arms.default block later)
  find_constants := by
    intro content
    simpa using arms.find_constants content
  find_default := by
    simp only [List.map_cons, List.zip_cons_cons, List.reverse_cons, List.find?_append,
      arms.find_default]
    cases List.find? _ _ <;> simp

end Arms

theorem runs_newArms {stage : Stage} {values : List Ir.Value} {former : List Ir.BlockId}
    (scrutinee : Ir.Value) (cases : List Case) (begun : Begun start values former stage) :
    Runs context outer stage (newArms scrutinee cases) fun blocks finish =>
      Arms scrutinee cases blocks ∧ Begun start values (former ++ blocks.arms) finish := by
  induction cases generalizing stage former with
  | nil =>
      refine .pure ⟨.nil scrutinee, ?_⟩
      rwa [List.append_nil]
  | cons arm rest ih =>
      obtain ⟨value, body⟩ := arm
      cases value with
      | some literal =>
          apply Runs.bind (runs_newBlock "switch.case")
          rintro _ _ _ ⟨rfl, rfl⟩
          apply Runs.ofExcept_bind
          intro constant fits
          apply Runs.bind (ih (begun.withBlock "switch.case"))
          rintro blocks finish _ ⟨arms, more⟩
          rw [List.append_assoc, List.singleton_append] at more
          exact .pure ⟨arms.consCase fits, more⟩
      | none =>
          apply Runs.bind (runs_newBlock "switch.default")
          rintro _ _ _ ⟨rfl, rfl⟩
          apply Runs.bind (ih (begun.withBlock "switch.default"))
          rintro blocks finish _ ⟨arms, more⟩
          rw [List.append_assoc, List.singleton_append] at more
          exact .pure ⟨arms.consDefault, more⟩

end YulLowering.Lowering
