import YulLowering.Proofs.Meaning.Assignments

/-!
# Statements on the machine

Before and after a statement the machine stands where the cursor stands, and the visible variables have
their values in slots. A statement that leaves an iteration takes the machine to the target of the
innermost loop instead, where the variables that were visible before the statement have their values.
What comes after such a statement has been written to a block that is never reached.
-/

namespace YulLowering.Lowering

open Ir (Frame Caller Config Machine)

variable {World : Type} {machine : Machine World} {lenient : Bool} {count : Nat}
  {context : Context} {arity : String → Option Nat} {calls : Calls World}
  {fuel : Nat} {finished : Ir.Function} {before after : State} {frame : Frame} {env : Env}

/-! ## Where statements begin and end -/

/-- The machine stands where the cursor stands, and the slots of visible declarations have the values
of the visible variables. -/
structure Faces (lenient : Bool) (finished : Ir.Function) (state : State) (env : Env)
    (frame : Frame) : Prop where
  stands : frame.At finished state.draft
  tracks : state.scope.Tracks lenient state.draft.function.locals.length env frame

/-- The machine stands at the start of a block, and the slots of declarations have the values of
variables. -/
structure Reaches (lenient : Bool) (finished : Ir.Function) (block : Ir.BlockId) (scope : Scope)
    (env : Env) (frame : Frame) : Prop where
  starts : frame.AtBlock finished block
  entries : List.Forall₂ (Binding.Tracks lenient frame) scope.bindings.reverse env

/-- Where the slots are the same and nothing has been declared, the variables have their values
still. -/
theorem Faces.of_locals_eq {later : Frame} (faces : Faces lenient finished before env frame)
    (stands : later.At finished after.draft) (locals : later.locals = frame.locals)
    (scope : after.scope = before.scope)
    (grows : before.draft.function.Grows after.draft.function) :
    Faces lenient finished after env later := by
  refine ⟨stands, ?_⟩
  rw [scope]
  apply faces.tracks.of_agrees _ grows.locals.length_le
  intro slot _
  rw [locals]

theorem Faces.newBlock (faces : Faces lenient finished before env frame) {label : String} :
    Faces lenient finished { before with draft := (before.draft.newBlock label).2 } env frame :=
  ⟨faces.stands.newBlock label, faces.tracks⟩

theorem Faces.inBlock {stage : Stage} (faces : Faces lenient finished stage.state env frame) :
    Faces lenient finished stage.inBlock.state env frame :=
  ⟨faces.stands, faces.tracks.entries, faces.tracks.increasing, faces.tracks.bounded⟩

/-- Where the cursor has gone to the block that the machine stands at. -/
theorem Reaches.faces {block : Ir.BlockId} {scope : Scope} {stage : Stage} {bound : Nat}
    {other : Env} {earlier : Frame} (reaches : Reaches lenient finished block scope env frame)
    (arrived : Arrived block stage) (same : stage.state.scope = scope)
    (tracks : scope.Tracks lenient bound other earlier)
    (le : bound ≤ stage.state.draft.function.locals.length) :
    Faces lenient finished stage.state env frame := by
  obtain ⟨rfl, outside, label, fresh⟩ := arrived
  subst same
  constructor
  case stands => exact .of_fresh fresh outside reaches.starts
  case tracks =>
    constructor
    case entries => exact reaches.entries
    case increasing => exact tracks.increasing
    case bounded =>
      intro binding member
      exact Nat.lt_of_lt_of_le (tracks.bounded binding member) le

/-- An outer scope sees fewer variables. -/
theorem Reaches.leave {block : Ir.BlockId} {outer scope : Scope}
    (reaches : Reaches lenient finished block scope env frame)
    (inside : outer.bindings <+: scope.bindings) :
    ∃ outside, outside <:+ env ∧ Reaches lenient finished block outer outside frame := by
  obtain ⟨declared, isScope⟩ := inside
  have entries := reaches.entries
  rw [← isScope, List.reverse_append] at entries
  have dropped := List.forall₂_drop declared.length entries
  rw [List.drop_left' (List.length_reverse ..)] at dropped
  exact ⟨_, List.drop_suffix _ _, reaches.starts, dropped⟩

/-- Where a step of the machine goes from the end of one block to the start of another one. -/
theorem Faces.reaches_goTo (faces : Faces lenient finished before env frame)
    (numbered : finished.Numbered) (terminator : Ir.Terminator) {target : Ir.BlockId}
    (isSet : terminator ≠ .unreachable)
    (grows : (before.draft.close terminator).function.Grows finished)
    (present : (finished.block? target).isSome) (callers : List Caller)
    (globals : Ir.GlobalId → Nat) (world : World)
    (leads : ∀ later : Frame, later.values = frame.values →
      Machine.leave later callers globals world terminator =
        Machine.goTo later callers globals world target) :
    ∃ between later, machine.Steps (.running frame callers globals world)
        (.running between callers globals world) ∧
      machine.step (.running between callers globals world) =
        some (.running later callers globals world) ∧
      Reaches lenient finished target before.scope env later := by
  obtain ⟨between, later, steps, goes, starts, agrees⟩ :=
    machine.steps_goTo callers globals world faces.stands isSet grows numbered present leads
  exact ⟨between, later, steps, goes, starts, (faces.tracks.of_agrees agrees (Nat.le_refl _)).entries⟩

/-- Where the machine stands at the cursor, control falls through. -/
theorem Faces.reaches_fallThrough (faces : Faces lenient finished before env frame)
    (numbered : finished.Numbered) {target : Ir.BlockId}
    (grows : (before.draft.fallThrough target).function.Grows finished)
    (present : (finished.block? target).isSome) (callers : List Caller)
    (globals : Ir.GlobalId → Nat) (world : World) :
    ∃ between later, machine.Steps (.running frame callers globals world)
        (.running between callers globals world) ∧
      machine.step (.running between callers globals world) =
        some (.running later callers globals world) ∧
      Reaches lenient finished target before.scope env later := by
  have isOpen := faces.stands.ahead.isOpen
  rw [Ir.Draft.fallThrough, isOpen.isClosed] at grows
  exact faces.reaches_goTo numbered (.jump target) (by simp) grows present callers
    globals world fun _ _ => rfl

/-- What a statement does to the machine. -/
def Acted (lenient : Bool) (finished : Ir.Function) (before after : State) (callers : List Caller)
    (outcome : Flow × Env) (world : World) (config : Config World) : Prop :=
  ∃ later globals, config = .running later callers globals world ∧
    match outcome.1 with
    | .onward => Faces lenient finished after outcome.2 later
    | .leaving exit => ∃ targets outside, before.loops.innermost? = some targets ∧
        outside <:+ outcome.2 ∧
        Reaches lenient finished (targets.target exit) before.scope outside later

/-- What comes out of a part of a statement comes out of the statement where it leaves an
iteration. -/
theorem Acted.widen {middle : State} {callers : List Caller} {exit : LoopExit} {world : World}
    {config : Config World} (loops : middle.loops = before.loops)
    (inside : before.scope.bindings <+: middle.scope.bindings) {later : State}
    (acted : Acted lenient finished middle later callers (.leaving exit, env) world config) :
    Acted lenient finished before after callers (.leaving exit, env) world config := by
  obtain ⟨frame, globals, rfl, targets, outside, innermost, suffix, reaches⟩ := acted
  obtain ⟨outer, isOuter, reaches⟩ := reaches.leave inside
  exact ⟨frame, globals, rfl, targets, outer, loops ▸ innermost, isOuter.trans suffix, reaches⟩

/-- What comes out of the last part of a statement comes out of the statement. -/
theorem Acted.of_last {middle : State} {callers : List Caller} {outcome : Flow × Env}
    {world : World} {config : Config World} (loops : middle.loops = before.loops)
    (inside : before.scope.bindings <+: middle.scope.bindings)
    (acted : Acted lenient finished middle after callers outcome world config) :
    Acted lenient finished before after callers outcome world config := by
  obtain ⟨flow, env⟩ := outcome
  cases flow with
  | onward => exact acted
  | leaving exit => exact acted.widen loops inside

/-- The machine does what an action does in the source, from one state of the lowering to another. -/
def Acts (machine : Machine World) (lenient : Bool) (count : Nat) (finished : Ir.Function)
    (before after : State) (action : Action World) : Prop :=
  ∀ ⦃env frame⦄ (callers : List Caller) (globals : Ir.GlobalId → Nat) (world : World),
    Faces lenient finished before env frame →
    machine.Simulates lenient count (action env world) (.running frame callers globals world)
      (Acted lenient finished before after callers)

/-- Wherever a step of the lowering is taken, what has been written does what an action does. -/
def Executes (machine : Machine World) (lenient : Bool) (count : Nat) (context : Context)
    (finished : Ir.Function) (step : Step Unit) (action : Action World) : Prop :=
  ∀ ⦃start finish : Stage⦄, Ready [] start → start.state.progress.Pooled →
    Part context [] step start finish → finish.state.draft.function.Grows finished →
    Acts machine lenient count finished start.state finish.state action

/-! ## Blocks and sequences -/

/-- What an action in a block of its own does. -/
theorem simulates_inBlock {inner : State} {action : Action World} {config : Config World}
    {callers : List Caller} {world : World} {bound : Nat} {earlier : Frame}
    (tracks : before.scope.Tracks lenient bound env earlier)
    (le : bound ≤ inner.draft.function.locals.length)
    (extends_ : before.scope.enter.Extends inner.scope)
    (simulates : machine.Simulates lenient count (action env world) config
      (Acted lenient finished { before with scope := before.scope.enter } inner callers)) :
    machine.Simulates lenient count (action.inBlock env world) config
      (Acted lenient finished before { inner with scope := inner.scope.leave } callers) := by
  have bounded : ∀ binding ∈ before.scope.bindings,
      binding.slot.index < inner.draft.function.locals.length :=
    fun binding member => Nat.lt_of_lt_of_le (tracks.bounded binding member) le
  apply simulates.bind
  rintro ⟨flow, env'⟩ world _ ⟨later, globals, rfl, ends⟩
  apply Machine.Simulates.ok
  refine ⟨later, globals, rfl, ?_⟩
  cases flow with
  | onward =>
      have inside : before.scope.bindings <+: inner.scope.bindings := extends_.bindings
      have tracksLater := ends.tracks.leave inside bounded
      rw [← tracks.length_eq] at tracksLater
      refine ⟨ends.stands, ?_⟩
      rw [show ({ inner with scope := inner.scope.leave } : State).scope = before.scope from
        extends_.leave_eq]
      exact tracksLater
  | leaving exit =>
      obtain ⟨targets, outside, innermost, suffix, reaches⟩ := ends
      have size : before.scope.bindings.reverse.length = outside.length :=
        reaches.entries.length_eq
      rw [List.length_reverse, ← tracks.length_eq] at size
      have isOutside : outside = env.leave env' := by
        rw [Env.leave, size]
        exact List.suffix_iff_eq_drop.mp suffix
      exact ⟨targets, outside, innermost, isOutside ▸ List.suffix_refl _, reaches.starts,
        reaches.entries⟩

theorem Executes.inBlock {step : Step Unit} {action : Action World}
    (executes : Executes machine lenient count context finished step action)
    (performs : Performs context [] step) :
    Executes machine lenient count context finished (Step.inBlock step) action.inBlock := by
  intro start finish ready pooled part grows env frame callers globals world faces
  obtain ⟨inner, innerPart, isFinish, -⟩ := performs.inBlock_inv ready part.after
  rw [isFinish] at grows ⊢
  have acts := executes ready.inBlock pooled innerPart grows
  exact simulates_inBlock faces.tracks innerPart.moves.grows.locals.length_le
    innerPart.performed.scope (acts callers globals world faces.inBlock)

/-- Statements behind one that leaves an iteration are not reached. -/
theorem executes_cons {statement : Statement} {rest : List Statement} {head tail : Action World}
    (first : Executes machine lenient count context finished (statement.lower context) head)
    (others : Executes machine lenient count context finished (Statement.lowerEach context rest)
      tail) :
    Executes machine lenient count context finished (Statement.lowerEach context (statement :: rest))
      (head.andThen tail) := by
  intro start finish ready pooled part grows env frame callers globals world faces
  have isOpen := faces.stands.ahead.isOpen
  have lowered := part.after
  rw [Statement.lowerEach] at lowered
  have opening : Runs context [] start openBlock _ := runs_openBlock ready.settled
  obtain ⟨-, opened, opens, ⟨performed, stillOpen, unchanged⟩, lowered⟩ := opening.bind_inv lowered
  have same : opened.state = start.state := unchanged isOpen
  have readyOpened :=
    performed.ready ready.settled ready.idle ready.lead opens (List.Subset.refl _)
  obtain ⟨-, middle, toMiddle, partFirst, lowered⟩ :=
    (runs_statement statement readyOpened stillOpen).part.bind_inv lowered
  have readyMiddle := (performed.after partFirst.performed).ready ready.settled ready.idle ready.lead
    (opens.trans toMiddle) (List.Subset.refl _)
  obtain ⟨last, -, isLast, partRest⟩ := (performs_statements rest readyMiddle).part.holds lowered
  rw [← isLast] at grows ⊢
  rw [← same] at faces pooled ⊢
  apply (first readyOpened pooled partFirst (partRest.moves.grows.trans grows) callers globals world
    faces).bind
  rintro ⟨flow, env'⟩ world _ acted
  cases flow with
  | onward =>
      obtain ⟨later, globals, rfl, faces⟩ := acted
      have pooledMiddle := toMiddle.progress.2.2 pooled
      apply (others readyMiddle pooledMiddle partRest grows callers globals world faces).mono
      intro outcome world config
      exact Acted.of_last partFirst.performed.loops partFirst.performed.scope.bindings
  | leaving exit => exact .ok (acted.widen rfl (List.prefix_refl _))

theorem executes_nil :
    Executes machine lenient count context finished (Statement.lowerEach context [])
      fun env => pure (.onward, env) := by
  intro start finish ready pooled part grows env frame callers globals world faces
  have lowered := part.after
  rw [Statement.lowerEach] at lowered
  obtain ⟨-, same⟩ := Prod.mk.inj lowered
  rw [← same]
  exact .ok ⟨frame, globals, rfl, faces⟩

/-! ## Simple statements -/

/-- What cannot be lowered need not be done. -/
theorem executes_throw (fault : Fault) {action : Action World} :
    Executes machine lenient count context finished (throw fault) action := by
  intro start finish ready pooled part grows
  have lowered := part.after
  cases lowered

theorem executes_perform (answers : Answers machine lenient count context arity calls)
    {expression : Expression} (proper : expression.isProper arity = true) :
    Executes machine lenient count context finished ((Statement.expression expression).lower context)
      ((Statement.expression expression).exec calls fuel) := by
  intro start finish ready pooled part grows env frame callers globals world faces
  have lowered := part.after
  rw [Statement.lower] at lowered
  rw [Statement.exec]
  have goes := goes_perform faces.stands.ahead.isOpen lowered
  apply (simulates_perform answers proper lowered grows callers globals world faces.stands
    (faces.tracks.reads _)).bind
  rintro results world _ ⟨later, globals, rfl, stands, locals⟩
  exact .ok ⟨later, globals, rfl, faces.of_locals_eq stands locals goes.scope goes.grows⟩

theorem executes_assignment (answers : Answers machine lenient count context arity calls)
    {names : List String} {value : Expression} (proper : value.isProper arity = true) :
    Executes machine lenient count context finished ((Statement.assignment names value).lower context)
      ((Statement.assignment names value).exec calls fuel) := by
  intro start finish ready pooled part grows env frame callers globals world faces
  have lowered := part.after
  rw [Statement.lower] at lowered
  rw [Statement.exec]
  have looks : Runs context [] start (names.mapM Step.lookup) _ := runs_lookups names
  obtain ⟨targets, _, -, ⟨rfl, means⟩, assigns⟩ := looks.bind_inv lowered
  have reserved : ∀ target ∈ targets, (frame.locals target.slot).isSome := by
    intro target member
    apply faces.stands.isSome_locals (part.moves.grows.trans grows)
    exact faces.tracks.bounded target (means.mem target member)
  obtain ⟨scope, growsAssign⟩ := grows_assign faces.stands.ahead.isOpen assigns
  apply (simulates_assign answers proper assigns pooled grows reserved callers globals world
    faces.stands (faces.tracks.reads _)).bind
  rintro results world _ ⟨size, later, globals, rfl, stands, locals⟩
  obtain ⟨assigned, isAssigned, tracks⟩ := faces.tracks.assignAll means size
  rw [isAssigned]
  refine .ok ⟨later, globals, rfl, stands, ?_⟩
  rw [scope]
  apply tracks.of_agrees _ growsAssign.locals.length_le
  intro slot _
  rw [locals]

/-- After declarations the variables that there were can be read, unless they are hidden. -/
theorem Declares.reads {bindings : List Binding} {later : Frame} {names : String → Bool}
    (declares : Declares before after bindings)
    (tracks : before.scope.Tracks lenient before.draft.function.locals.length env frame)
    (agrees : frame.Agrees later before.draft.function.locals.length)
    (apart : ∀ binding ∈ bindings, names binding.name = false) :
    after.scope.Reads lenient env later names := by
  have tracksLater := tracks.of_agrees agrees (Nat.le_refl _)
  intro name binding read found
  apply tracksLater.reads names name binding read
  rw [Scope.lookup, declares.scope, List.reverse_append, List.find?_append] at found
  have hidden : (bindings.reverse.find? fun binding => binding.name == name) = none := by
    apply List.find?_eq_none.mpr
    intro other member same
    rw [← beq_iff_eq.mp same] at read
    rw [apart other (List.mem_reverse.mp member)] at read
    cases read
  rwa [hidden, Option.none_or] at found

/-- Declarations without values. -/
theorem tracks_unassigned {bindings : List Binding} (allowed : bindings ≠ [] → lenient = true) :
    List.Forall₂ (Binding.Tracks lenient frame) bindings
      ((bindings.map Binding.name).zip (bindings.map fun _ => none)) := by
  induction bindings with
  | nil => exact .nil
  | cons binding rest ih =>
      have isLenient := allowed (List.cons_ne_nil _ _)
      refine .cons ⟨rfl, ?_, fun _ => isLenient⟩ (ih fun _ => isLenient)
      intro value isValue
      cases isValue

theorem executes_declare {declared : List TypedName}
    (proper : (lenient || declared.isEmpty) = true) :
    Executes machine lenient count context finished
      ((Statement.declaration declared none).lower context)
      ((Statement.declaration declared none).exec calls fuel) := by
  intro start finish ready pooled part grows env frame callers globals world faces
  have lowered := part.after
  rw [Statement.lower] at lowered
  rw [Statement.exec]
  obtain ⟨bindings, middle, declaring, ends⟩ := Step.bind_inv lowered
  obtain ⟨-, rfl⟩ := Prod.mk.inj ends
  obtain ⟨declares, names, steps⟩ :=
    steps_declareAll finished declaring faces.stands.ahead.isOpen
  obtain ⟨later, steps, stands, agrees⟩ := steps grows callers globals world faces.stands
  have size : bindings.length = declared.length := by
    simpa using congrArg List.length names
  have allowed : bindings ≠ [] → lenient = true := by
    intro some
    cases declared with
    | nil => exact absurd (List.length_eq_zero_iff.mp size) some
    | cons head rest => simpa using proper
  have blanks : declared.map (fun _ => (none : Option Nat)) = bindings.map fun _ => none := by
    simp [List.map_const', size]
  apply Machine.Simulates.of_steps steps
  refine .ok ⟨later, globals, rfl, stands, ?_⟩
  rw [declares.locals, Env.declare, ← names, blanks]
  exact (faces.tracks.of_agrees agrees (Nat.le_refl _)).bindAll declares.scope declares.slots
    (tracks_unassigned allowed)

theorem executes_initialise (answers : Answers machine lenient count context arity calls)
    {declared : List TypedName} {value : Expression}
    (apart : declared.all (fun target => !value.mentions target.name) = true)
    (proper : value.isProper arity = true) :
    Executes machine lenient count context finished
      ((Statement.declaration declared (some value)).lower context)
      ((Statement.declaration declared (some value)).exec calls fuel) := by
  intro start finish ready pooled part grows env frame callers globals world faces
  have lowered := part.after
  rw [Statement.lower] at lowered
  rw [Statement.exec]
  obtain ⟨bindings, middle, declaring, assigns⟩ := Step.bind_inv lowered
  obtain ⟨declares, names, steps⟩ :=
    steps_declareAll finished declaring faces.stands.ahead.isOpen
  obtain ⟨scope, growsAssign⟩ := grows_assign declares.isOpen assigns
  have growsMiddle := growsAssign.trans grows
  obtain ⟨between, steps, stands, agrees⟩ := steps growsMiddle callers globals world faces.stands
  have hidden : ∀ binding ∈ bindings, value.mentions binding.name = false := by
    intro binding member
    have isName : binding.name ∈ declared.map TypedName.name := by
      rw [← names]
      exact List.mem_map_of_mem member
    obtain ⟨target, isTarget, same⟩ := List.mem_map.mp isName
    have unread := List.all_eq_true.mp apart target isTarget
    rwa [same, Bool.not_eq_true'] at unread
  have reserved : ∀ binding ∈ bindings, (between.locals binding.slot).isSome := by
    intro binding member
    apply stands.isSome_locals growsMiddle
    have index : binding.slot.index ∈
        List.range' start.state.draft.function.locals.length bindings.length := by
      rw [← declares.slots]
      exact List.mem_map_of_mem member
    rw [declares.locals]
    exact (List.mem_range'_1.mp index).2
  have pooledMiddle : middle.progress.Pooled := declares.spills ▸ pooled
  apply Machine.Simulates.of_steps steps
  apply (simulates_assign answers proper assigns pooledMiddle grows reserved callers globals world
    stands (declares.reads faces.tracks agrees hidden)).bind
  rintro results world _ ⟨size, later, globals, rfl, stands, locals⟩
  have length : bindings.length = declared.length := by
    simpa using congrArg List.length names
  rw [if_pos (size.trans length)]
  refine .ok ⟨later, globals, rfl, stands, ?_⟩
  rw [scope, Env.declare, ← names]
  -- First the slots are stored to, and then they belong to variables.
  let stores := (bindings.map Binding.slot).zip results
  have stored : frame.Agrees (between.setAll stores) start.state.draft.function.locals.length :=
    agrees.trans (Scope.agrees_setAll declares.slots) (Nat.le_refl _)
  have tracks := (faces.tracks.of_agrees stored (Nat.le_refl _)).bindAll declares.scope
    declares.slots (Scope.tracks_stored declares.slots size)
  rw [← declares.locals] at tracks
  apply tracks.of_agrees _ growsAssign.locals.length_le
  intro slot _
  rw [locals]

/-- Leaving an iteration takes the machine to the target of the innermost loop. -/
theorem executes_leaveIteration (numbered : finished.Numbered) (exit : LoopExit) :
    Executes machine lenient count context finished (leaveIteration exit)
      fun env => pure (.leaving exit, env) := by
  intro start finish ready pooled part grows env frame callers globals world faces
  have lowered := part.after
  rw [leaveIteration, Step.after_bind, Step.after_inspect] at lowered
  obtain ⟨target, isTarget, lowered⟩ := Step.ofExcept_bind_inv lowered
  obtain ⟨targets, innermost, rfl⟩ := Loops.innermost_of_target isTarget
  have waits : targets.target exit ∈ start.waiting :=
    (ready.lead targets (List.mem_of_mem_head? innermost) exit).resolve_right (List.not_mem_nil)
  obtain ⟨-, -, label, fresh⟩ := ready.settled.fresh _ waits
  have present : (finished.block? (targets.target exit)).isSome := by
    apply (part.moves.grows.trans grows).isSome_block?
    rw [fresh]
    rfl
  have jumps : finish.state =
      { start.state with draft := start.state.draft.jump (targets.target exit) } :=
    (Prod.mk.inj lowered).2.symm
  rw [jumps] at grows
  obtain ⟨between, later, steps, goes, reaches⟩ := faces.reaches_goTo numbered
    (.jump (targets.target exit)) (by simp) grows present callers globals world
    fun _ _ => rfl
  exact .of_steps (steps.tail goes) (.ok ⟨later, globals, rfl, targets, env, innermost,
    List.suffix_refl _, reaches⟩)

end YulLowering.Lowering
