import YulLowering.Proofs.Moves

/-!
# Expressions as runs of moves

A step of a lowering makes moves, whether it succeeds or fails. The rules for taking steps in a row,
in a block and in a loop come first; then every expression is followed through its lowering. What it
evaluates to is pending afterwards, the latest value first, and nothing else is different: the
cursor stays in its block, and no block, scope or loop is opened or closed for good.
-/

namespace YulLowering.Lowering

/-- A step makes moves from a stage on; if it succeeds, `post` tells where they end. -/
def Runs {α : Type} (context : Context) (outer : List Ir.BlockId) (start : Stage) (step : Step α)
    (post : α → Stage → Prop) : Prop :=
  ∃ finish, Moves context outer start finish ∧ (step.after start.state).2 = finish.state ∧
    ∀ result, (step.after start.state).1 = .ok result → post result finish

variable {context : Context} {outer : List Ir.BlockId} {start : Stage}

/-- Two steps in a row that have succeeded have both succeeded. -/
theorem Step.bind_inv {α β : Type} {step : Step α} {next : α → Step β} {state last : State}
    {result : β} (succeeds : (step >>= next).after state = (.ok result, last)) :
    ∃ value middle, step.after state = (.ok value, middle) ∧
      (next value).after middle = (.ok result, last) := by
  rw [Step.after_bind] at succeeds
  cases taken : step.after state with
  | mk outcome middle =>
      rw [taken] at succeeds
      cases outcome with
      | error fault => cases succeeds
      | ok value => exact ⟨value, middle, rfl, succeeds⟩

theorem Step.ofExcept_bind_inv {α β : Type} {outcome : Except Fault α} {next : α → Step β}
    {state last : State} {result : β}
    (succeeds : (Step.ofExcept outcome >>= next).after state = (.ok result, last)) :
    ∃ value, outcome = .ok value ∧ (next value).after state = (.ok result, last) := by
  obtain ⟨value, middle, taken, rest⟩ := Step.bind_inv succeeds
  cases taken
  exact ⟨value, rfl, rest⟩

namespace Runs

variable {α β : Type} {step : Step α} {post : α → Stage → Prop}

theorem pure {result : α} (holds : post result start) :
    Runs context outer start (Pure.pure result) post := by
  refine ⟨start, .refl, rfl, ?_⟩
  intro other equal
  cases equal
  exact holds

theorem throw (fault : Fault) : Runs context outer start (MonadExcept.throw fault) post := by
  refine ⟨start, .refl, rfl, ?_⟩
  intro result equal
  cases equal

theorem ofExcept {outcome : Except Fault α}
    (holds : ∀ result, outcome = .ok result → post result start) :
    Runs context outer start (Step.ofExcept outcome) post :=
  ⟨start, .refl, rfl, holds⟩

/-- A step that succeeds and is a run of moves by itself. -/
theorem of_moves {finish : Stage} (moves : Moves context outer start finish) {result : α}
    (after : step.after start.state = (.ok result, finish.state)) (holds : post result finish) :
    Runs context outer start step post := by
  refine ⟨finish, moves, by rw [after], ?_⟩
  intro other equal
  rw [after] at equal
  cases equal
  exact holds

theorem of_move {finish : Stage} (move : Move context outer start finish) {result : α}
    (after : step.after start.state = (.ok result, finish.state)) (holds : post result finish) :
    Runs context outer start step post :=
  of_moves (.single move) after holds

/-- Moves that leave the state alone may come first. -/
theorem of_state_eq {middle : Stage} (moves : Moves context outer start middle)
    (same : middle.state = start.state) (runs : Runs context outer middle step post) :
    Runs context outer start step post := by
  obtain ⟨finish, more, after, holds⟩ := runs
  rw [same] at after holds
  exact ⟨finish, moves.trans more, after, holds⟩

/-- Two steps in a row. The second one may rely on the moves that the first one has made. -/
theorem bind {middle : α → Stage → Prop} {next : α → Step β} {post : β → Stage → Prop}
    (first : Runs context outer start step middle)
    (second : ∀ result stage, Moves context outer start stage → middle result stage →
      Runs context outer stage (next result) post) :
    Runs context outer start (step >>= next) post := by
  obtain ⟨stage, moves, after, holds⟩ := first
  unfold Runs
  rw [Step.after_bind]
  cases taken : step.after start.state with
  | mk outcome later =>
      rw [taken] at after holds
      obtain rfl : later = stage.state := after
      cases outcome with
      | error fault => exact ⟨stage, moves, rfl, fun result equal => by cases equal⟩
      | ok result =>
          obtain ⟨finish, more, afterSecond, holdsSecond⟩ :=
            second result stage moves (holds result rfl)
          exact ⟨finish, moves.trans more, afterSecond, holdsSecond⟩

/-- Where a step that succeeds ends. -/
theorem holds {result : α} {last : State} (runs : Runs context outer start step post)
    (succeeds : step.after start.state = (.ok result, last)) :
    ∃ finish, Moves context outer start finish ∧ finish.state = last ∧ post result finish := by
  obtain ⟨finish, moves, after, holds⟩ := runs
  rw [succeeds] at after holds
  exact ⟨finish, moves, after.symm, holds result rfl⟩

/-- What a step does may be told in what it does. -/
theorem recorded (runs : Runs context outer start step post) :
    Runs context outer start step fun result finish =>
      post result finish ∧ step.after start.state = (.ok result, finish.state) := by
  obtain ⟨finish, moves, after, holds⟩ := runs
  refine ⟨finish, moves, after, ?_⟩
  intro result succeeds
  exact ⟨holds result succeeds, Prod.ext succeeds after⟩

/-- A step that has succeeded together with a second one has succeeded by itself. -/
theorem bind_inv {middle : α → Stage → Prop} (first : Runs context outer start step middle)
    {next : α → Step β} {result : β} {last : State}
    (succeeds : (step >>= next).after start.state = (.ok result, last)) :
    ∃ value stage, Moves context outer start stage ∧ middle value stage ∧
      (next value).after stage.state = (.ok result, last) := by
  obtain ⟨value, middle, taken, rest⟩ := Step.bind_inv succeeds
  obtain ⟨stage, moves, rfl, holds⟩ := first.holds taken
  exact ⟨value, stage, moves, holds, rest⟩

theorem ofExcept_bind {outcome : Except Fault α} {next : α → Step β} {post : β → Stage → Prop}
    (second : ∀ result, outcome = .ok result → Runs context outer start (next result) post) :
    Runs context outer start (Step.ofExcept outcome >>= next) post := by
  cases outcome with
  | error fault =>
      refine ⟨start, .refl, by rw [Step.after_bind]; rfl, ?_⟩
      intro result equal
      rw [Step.after_bind] at equal
      cases equal
  | ok result =>
      obtain ⟨finish, moves, after, holds⟩ := second result rfl
      refine ⟨finish, moves, ?_, ?_⟩
      · rw [Step.after_bind]
        exact after
      · rw [Step.after_bind]
        exact holds

theorem inspect_bind {look : State → α} {next : α → Step β} {post : β → Stage → Prop}
    (second : Runs context outer start (next (look start.state)) post) :
    Runs context outer start (Step.inspect look >>= next) post := by
  obtain ⟨finish, moves, after, holds⟩ := second
  refine ⟨finish, moves, ?_, ?_⟩
  · rw [Step.after_bind]
    exact after
  · rw [Step.after_bind]
    exact holds

theorem mono {weaker : α → Stage → Prop} (runs : Runs context outer start step post)
    (weaken : ∀ result finish, post result finish → weaker result finish) :
    Runs context outer start step weaker := by
  obtain ⟨finish, moves, after, holds⟩ := runs
  exact ⟨finish, moves, after, fun result equal => weaken result finish (holds result equal)⟩

/-- A step in a block of its own. -/
theorem inBlock
    (runs : Runs context outer
      { start with state := { start.state with scope := start.state.scope.enter } } step
      fun result inner =>
        post result { inner with state := { inner.state with scope := inner.state.scope.leave } }) :
    Runs context outer start (Step.inBlock step) post := by
  obtain ⟨inner, moves, after, holds⟩ := runs
  refine ⟨_, (Relation.ReflTransGen.head .enterBlock moves).tail .leaveBlock, ?_, holds⟩
  rw [Step.after_inBlock, ← after]

/-- A step inside a loop. -/
theorem inLoop {targets : LoopFrame}
    (runs : Runs context outer
      { start with state := { start.state with loops := start.state.loops.enter targets } } step
      fun result inner =>
        post result { inner with state := { inner.state with loops := inner.state.loops.leave } }) :
    Runs context outer start (Step.inLoop targets step) post := by
  obtain ⟨inner, moves, after, holds⟩ := runs
  refine ⟨_, (Relation.ReflTransGen.head (.enterLoop targets) moves).tail .leaveLoop, ?_, holds⟩
  rw [Step.after_inLoop, ← after]

end Runs

/-! ## Values that have been computed -/

/-- Between two stages values have been computed and blocks have been made, under the same cursor,
and nothing else has been begun or finished. -/
structure Begun (start : Stage) (values : List Ir.Value) (blocks : List Ir.BlockId)
    (finish : Stage) : Prop where
  isOpen : finish.draft.IsOpen
  cursor : finish.draft.cursor = start.draft.cursor
  scope : finish.state.scope = start.state.scope
  loops : finish.state.loops = start.state.loops
  spills : finish.state.spills = start.state.spills
  pending : finish.pending = values.reverse ++ start.pending
  waiting : finish.waiting = blocks.reverse ++ start.waiting
  announced : finish.announced = start.announced

/-- Between two stages nothing has happened but that values have been computed. -/
abbrev Evaluated (start : Stage) (values : List Ir.Value) (finish : Stage) : Prop :=
  Begun start values [] finish

theorem Begun.nil (isOpen : start.draft.IsOpen) : Begun start [] [] start :=
  ⟨isOpen, rfl, rfl, rfl, rfl, rfl, rfl, rfl⟩

theorem Begun.append {middle finish : Stage} {first second : List Ir.Value}
    {former latter : List Ir.BlockId} (before : Begun start first former middle)
    (after : Begun middle second latter finish) :
    Begun start (first ++ second) (former ++ latter) finish where
  isOpen := after.isOpen
  cursor := after.cursor.trans before.cursor
  scope := after.scope.trans before.scope
  loops := after.loops.trans before.loops
  spills := after.spills.trans before.spills
  pending := by
    rw [after.pending, before.pending, List.reverse_append, List.append_assoc]
  waiting := by
    rw [after.waiting, before.waiting, List.reverse_append, List.append_assoc]
  announced := after.announced.trans before.announced

/-- An instruction that uses the latest pending values puts its result in their place. -/
theorem runs_write {α : Type} {edit : Ir.Draft → α × Ir.Draft} {stage : Stage}
    {instruction : Ir.Instruction} {result : α} (used : List Ir.Value)
    (before : Evaluated start used stage)
    (edits : edit stage.draft = (result, stage.draft.write instruction))
    (operands : instruction.operands = used) (writable : Writable context stage.state instruction) :
    Runs context outer stage (Step.write edit) fun written finish =>
      written = result ∧ Evaluated start instruction.dest?.toList finish := by
  have enough : stage.pending = instruction.operands.reverse ++ start.pending := by
    rw [operands, before.pending]
  have after : (Step.write edit).after stage.state =
      (.ok result, { stage.state with draft := stage.draft.write instruction }) := by
    rw [Step.after_write, edits]
  refine .of_move (.write instruction start.pending before.isOpen enough writable) after ⟨rfl, ?_⟩
  · refine ⟨Ir.Draft.isOpen_write before.isOpen instruction, before.cursor, before.scope,
      before.loops, before.spills, ?_, before.waiting, before.announced⟩
    cases instruction.dest? <;> rfl

/-! ## Expressions -/

theorem runs_literal (isOpen : start.draft.IsOpen) (literal : Literal) :
    Runs context outer start (literal.lower context) fun value finish =>
      Evaluated start [value] finish := by
  apply Runs.ofExcept_bind
  intro type _
  apply Runs.ofExcept_bind
  intro constant fits
  have holds : type.Holds constant := (Literal.valueAt_eq_ok_iff.mp fits).2
  apply (runs_write [] (.nil isOpen) (Ir.Draft.const_eq _ _ _) rfl (.const type constant holds)).mono
  rintro value finish ⟨rfl, evaluated⟩
  exact evaluated

theorem runs_lowerLiterals (isOpen : start.draft.IsOpen) (builtin : String) (index : Nat)
    (arguments : List Expression) :
    Runs context outer start (Expression.lowerLiterals context builtin index arguments)
      fun values finish => Evaluated start values finish := by
  induction arguments generalizing start index with
  | nil => exact .pure (.nil isOpen)
  | cons argument rest ih =>
      cases argument with
      | literal written =>
          apply Runs.bind (runs_literal isOpen written)
          intro value stage _ first
          apply Runs.bind (ih first.isOpen (index + 1))
          intro values finish _ others
          exact .pure (first.append others)
      | identifier | call | instructionCall | instruction => exact .throw _

theorem runs_signature_write {stage : Stage} {name : String} {signature : Signature}
    (resolved : context.resolveCall name = .ok (.function signature)) (values : List Ir.Value)
    (before : Evaluated start values stage) :
    Runs context outer stage (signature.write values) fun outcome finish =>
      outcome.first = stage.draft.callResult signature.resultType ∧
        Evaluated start outcome.first.toList finish := by
  apply Runs.bind (runs_write values before (Ir.Draft.call_eq _ _ _ _) rfl
    (.callFunction name signature values resolved))
  rintro first finish _ ⟨rfl, evaluated⟩
  exact .pure ⟨rfl, evaluated⟩

theorem runs_writeExternal {stage : Stage} {name : String} {builtin : Builtin}
    {external : Ir.External} (resolved : context.resolveCall name = .ok (.builtin builtin))
    (isExternal : context.external builtin = .ok external) (values : List Ir.Value)
    (before : Evaluated start values stage) :
    Runs context outer stage (writeExternal external values) fun outcome finish =>
      Evaluated start outcome.first.toList finish := by
  have declares : Runs context outer stage (Step.declareExternal external) fun _ finish =>
      finish = { stage with state := stage.state.imported external } :=
    .of_move (.declareBuiltin name builtin external resolved isExternal) rfl rfl
  apply Runs.bind declares
  rintro _ _ _ rfl
  have still : Evaluated start values { stage with state := stage.state.imported external } :=
    ⟨before.isOpen, before.cursor, before.scope, before.loops, before.spills, before.pending,
      before.waiting, before.announced⟩
  apply Runs.bind (runs_write values still (Ir.Draft.call_eq _ _ _ _) rfl
    (.callBuiltin name builtin external values resolved isExternal))
  rintro first finish _ ⟨rfl, evaluated⟩
  exact .pure evaluated

/-- A call evaluates its arguments and uses them all. -/
theorem runs_invokeWith {name : String} {target : Target} {arguments : List Expression}
    {evaluate : Step (List Ir.Value)} (resolved : context.resolveCall name = .ok target)
    (isOpen : start.draft.IsOpen)
    (evaluates : Runs context outer start evaluate fun values finish =>
      Evaluated start values finish) :
    Runs context outer start (target.invokeWith context arguments evaluate) fun outcome finish =>
      Evaluated start outcome.first.toList finish := by
  cases target with
  | function signature =>
      apply Runs.bind evaluates
      intro values stage _ before
      exact (runs_signature_write resolved values before).mono fun _ _ => And.right
  | builtin builtin =>
      apply Runs.ofExcept_bind
      intro external isExternal
      split
      · apply Runs.bind (runs_lowerLiterals isOpen builtin.name 0 arguments)
        intro values stage _ before
        exact runs_writeExternal resolved isExternal values before
      · apply Runs.bind evaluates
        intro values stage _ before
        exact runs_writeExternal resolved isExternal values before

theorem runs_lookup (name : String) :
    Runs context outer start (Step.lookup name) fun binding finish =>
      finish = start ∧ start.state.scope.lookup name = some binding := by
  rw [Step.lookup]
  apply Runs.inspect_bind
  cases found : start.state.scope.lookup name with
  | none => exact .throw _
  | some binding => exact .pure ⟨rfl, rfl⟩

/-- A call that gives exactly one value has it as its direct result. -/
theorem CallOutcome.first_of_single {outcome : CallOutcome} {value : Ir.Value}
    (single : outcome.single = .ok value) : outcome.first = some value := by
  unfold CallOutcome.single at single
  split at single
  · next first isFirst =>
      split at single
      · cases single
        exact isFirst
      · cases single
  · cases single

mutual

/-- An expression adds the one value that it gives. -/
theorem runs_lower : (expression : Expression) → {start : Stage} → start.draft.IsOpen →
    Runs context outer start (expression.lower context) fun value finish =>
      Evaluated start [value] finish
  | .identifier name, start, isOpen => by
      rw [Expression.lower]
      apply Runs.bind (runs_lookup name)
      rintro binding _ _ ⟨rfl, found⟩
      apply (runs_write [] (.nil isOpen) (Ir.Draft.load_eq _ _ _) rfl
        (.load binding (Scope.mem_of_lookup found).1)).mono
      rintro value finish ⟨rfl, evaluated⟩
      exact evaluated
  | .literal literal, start, isOpen => by
      rw [Expression.lower]
      exact runs_literal isOpen literal
  | .call callee arguments, start, isOpen => by
      rw [Expression.lower]
      apply Runs.ofExcept_bind
      intro target resolved
      apply Runs.bind (runs_invokeWith resolved isOpen (runs_lowerEach arguments isOpen))
      intro outcome finish _ evaluated
      apply Runs.ofExcept
      intro value single
      rw [CallOutcome.first_of_single single] at evaluated
      exact evaluated
  | .instructionCall mnemonic _, _, _ => by
      rw [Expression.lower]
      exact .throw _
  | .instruction mnemonic, _, _ => by
      rw [Expression.lower]
      exact .throw _

/-- Arguments add their values in order. -/
theorem runs_lowerEach : (arguments : List Expression) → {start : Stage} → start.draft.IsOpen →
    Runs context outer start (Expression.lowerEach context arguments) fun values finish =>
      Evaluated start values finish
  | [], start, isOpen => by
      rw [Expression.lowerEach]
      exact .pure (.nil isOpen)
  | argument :: rest, start, isOpen => by
      rw [Expression.lowerEach]
      apply Runs.bind (runs_lower argument isOpen)
      intro value stage _ first
      apply Runs.bind (runs_lowerEach rest first.isOpen)
      intro values finish _ others
      exact .pure (first.append others)

end

end YulLowering.Lowering
