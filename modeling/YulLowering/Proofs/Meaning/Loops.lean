import YulLowering.Proofs.Meaning.Branches

/-!
# Loops on the machine

The head of a loop is where a round begins, with the variables that the statements in front of the loop
have declared. A round that does not end the loop takes the machine back there, and the step that does
so counts where the source run needs more rounds than it may make.
-/

namespace YulLowering

variable {World : Type} {machine : Ir.Machine World} {lenient : Bool} {count : Nat}

open Ir (Frame Caller Config Machine)

/-- What a round does, rounds do. A round that goes on ends one step before the next one begins. -/
theorem simulates_iterate {round : Env → Eval World (Option Flow × Env)}
    {atHead : Env → World → Config World → Prop} {ends : Flow × Env → World → Config World → Prop}
    (rounds : ∀ {env world config}, atHead env world config →
      machine.Simulates lenient count (round env world) config fun outcome world config =>
        match outcome.1 with
        | none => ∃ next, machine.step config = some next ∧ atHead outcome.2 world next
        | some flow => ends (flow, outcome.2) world config)
    (fuel : Nat) {env : Env} {world : World} {config : Config World}
    (head : atHead env world config) :
    machine.Simulates lenient (min count fuel) (Action.iterate round fuel env world) config ends := by
  induction fuel generalizing env world config with
  | zero =>
      rw [Nat.min_zero]
      trivial
  | succ fuel ih =>
      rw [Action.iterate]
      apply ((rounds head).fewer (Nat.min_le_left _ _)).bind
      rintro ⟨outcome, env⟩ world config holds
      cases outcome with
      | none =>
          obtain ⟨next, goes, head⟩ := holds
          apply ((ih head).of_step goes).fewer
          omega
      | some flow => exact .ok holds

/-- After a block there are no more variables than before it. -/
theorem length_le_of_inBlock {action : Action World} {env later : Env} {flow : Flow}
    {world last : World} (ends : action.inBlock env world = .ok ((flow, later), last)) :
    later.length ≤ env.length := by
  rw [Action.inBlock, Eval.bind_apply] at ends
  cases run : action env world with
  | error stop =>
      rw [run] at ends
      cases ends
  | ok pair =>
      obtain ⟨⟨flow, inner⟩, world⟩ := pair
      rw [run] at ends
      cases ends
      rw [Env.leave, List.length_drop]
      omega

namespace Lowering

variable {context : Context} {arity : String → Option Nat} {calls : Calls World}
  {fuel : Nat} {finished : Ir.Function} {before after : State} {frame : Frame} {env : Env}

/-! ## Rounds -/

variable {rest : List Ir.BlockId} {condition : Expression} {advance body : List Statement}
  {head step done : Ir.BlockId} {start finish : Stage}

namespace RoundsRun

/-- The body of a loop is lowered inside the loop. -/
theorem body_inv (run : RoundsRun context [] rest condition advance body head step done start finish) :
    ∃ inner, Part context [] (Step.inBlock (Statement.lowerEach context body))
        (run.inside.inLoop ⟨done, step⟩) inner ∧
      run.afterBody.state = { inner.state with loops := run.inside.state.loops } ∧
      inner.state.scope = run.inside.state.scope := by
  obtain ⟨inner, part, afterBody⟩ :=
    (performs_statements body).inBlock.inLoop_inv run.ready run.part.after
  obtain ⟨-, -, -, scope⟩ := (performs_statements body).inBlock_inv run.ready part.after
  exact ⟨inner, part, afterBody, scope⟩

/-- What is visible at the head of a loop is visible throughout. -/
theorem scopes (run : RoundsRun context [] rest condition advance body head step done start finish) :
    run.atHead.state.scope = start.state.scope ∧
      run.evaluated.state.scope = start.state.scope ∧
      run.inside.state.scope = start.state.scope ∧ run.atStep.state.scope = start.state.scope ∧
      run.afterStep.state.scope = start.state.scope ∧ finish.state.scope = start.state.scope := by
  have atHead : run.atHead.state.scope = start.state.scope := by rw [run.head_eq]
  have evaluated : run.evaluated.state.scope = start.state.scope :=
    (goes_lowerToCondition run.arrived.isOpen run.evaluates).scope.trans atHead
  have inside : run.inside.state.scope = start.state.scope := by
    rw [run.inside_eq]
    exact evaluated
  obtain ⟨inner, -, afterBody, innerScope⟩ := run.body_inv
  have atStep : run.atStep.state.scope = start.state.scope := by
    rw [run.step_eq, afterBody]
    exact innerScope.trans inside
  obtain ⟨-, -, -, stepScope⟩ :=
    (performs_statements advance).inBlock_inv run.readyStep run.partStep.after
  refine ⟨atHead, evaluated, inside, atStep, stepScope.trans atStep, ?_⟩
  rw [run.finish_eq]
  exact stepScope.trans atStep

/-- The loops around a loop are those around its step. -/
theorem loops (run : RoundsRun context [] rest condition advance body head step done start finish) :
    run.atStep.state.loops = start.state.loops := by
  obtain ⟨inner, -, afterBody, -⟩ := run.body_inv
  rw [run.step_eq, afterBody]
  show run.inside.state.loops = _
  rw [run.inside_eq]
  show run.evaluated.state.loops = _
  rw [(goes_lowerToCondition run.arrived.isOpen run.evaluates).loops, run.head_eq]

end RoundsRun

section

variable (run : RoundsRun context [] rest condition advance body head step done start finish)

include run

namespace RoundsRun

/-- The points of a round, each from the one before it. -/
theorem movesToBody : Moves context [] start run.inside :=
  (run.falls.trans run.begins).trans run.enters

theorem movesToStep : Moves context [] start run.atStep :=
  (run.movesToBody.trans run.part.moves).trans run.continues

theorem movesFromInside : Moves context [] run.inside finish :=
  ((run.part.moves.trans run.continues).trans run.partStep.moves).trans run.returns

theorem movesFromHead : Moves context [] run.atHead finish :=
  (run.begins.trans run.enters).trans run.movesFromInside

end RoundsRun

end

/-- The machine stands at the head of a loop. -/
def AtHead (lenient : Bool) (finished : Ir.Function) (head : Ir.BlockId) (before : State)
    (callers : List Caller) (env : Env) (world : World) (config : Config World) : Prop :=
  ∃ frame globals, config = .running frame callers globals world ∧
    Reaches lenient finished head before.scope env frame

/-- What a round of a loop does to the machine. -/
def Rounded (machine : Machine World) (lenient : Bool) (finished : Ir.Function)
    (head done : Ir.BlockId) (before : State) (callers : List Caller) (outcome : Option Flow × Env)
    (world : World) (config : Config World) : Prop :=
  match outcome.1 with
  | none => ∃ next, machine.step config = some next ∧
      AtHead lenient finished head before callers outcome.2 world next
  | some flow => Passed lenient finished done before callers (flow, outcome.2) world config

/-- What comes after the body of a round. -/
theorem simulates_step (numbered : finished.Numbered)
    (run : RoundsRun context [] rest condition advance body head step done start finish)
    (executes : Executes machine lenient count context finished
      (Statement.lowerEach context advance) (Statement.execEach calls fuel advance))
    (pooled : run.atStep.state.progress.Pooled)
    (grows : finish.state.draft.function.Grows finished)
    (present : (finished.block? head).isSome) (callers : List Caller)
    (globals : Ir.GlobalId → Nat) (world : World)
    (faces : Faces lenient finished run.atStep.state env frame) :
    machine.Simulates lenient count
      ((do
        let (flow, env) ← (Action.inBlock (Statement.execEach calls fuel advance)) env
        match flow with
        | .onward => pure (none, env)
        | .leaving exit => pure (some (.leaving exit), env) : Eval World (Option Flow × Env)) world)
      (.running frame callers globals world)
      (Rounded machine lenient finished head done start.state callers) := by
  obtain ⟨-, -, -, stepScope, afterScope, -⟩ := run.scopes
  have growsAfter : run.afterStep.state.draft.function.Grows finished := run.returns.grows.trans grows
  have acts := executes.inBlock (performs_statements advance) run.readyStep pooled run.partStep
    growsAfter
  apply (acts callers globals world faces).bind
  rintro ⟨flow, env⟩ world _ ⟨later, globals, rfl, ends⟩
  cases flow with
  | onward =>
      have growsFalls : (run.afterStep.state.draft.fallThrough head).function.Grows finished := by
        rw [run.finish_eq] at grows
        exact grows
      obtain ⟨between, next, steps, goes, reaches⟩ :=
        ends.reaches_fallThrough numbered growsFalls present callers globals world
      rw [afterScope] at reaches
      exact .of_steps steps (.ok ⟨_, goes, next, globals, rfl, reaches⟩)
  | leaving exit =>
      rw [stepScope, run.loops] at ends
      exact .ok ⟨later, globals, rfl, ends⟩

/-- What comes after the head of a round that goes on: the body, and then the step unless the body leaves the
loop. -/
theorem simulates_body (numbered : finished.Numbered)
    (run : RoundsRun context [] rest condition advance body head step done start finish)
    (executesBody : Executes machine lenient count context finished
      (Statement.lowerEach context body) (Statement.execEach calls fuel body))
    (executesStep : Executes machine lenient count context finished
      (Statement.lowerEach context advance) (Statement.execEach calls fuel advance))
    (pooled : start.state.progress.Pooled) (grows : finish.state.draft.function.Grows finished)
    (present : (finished.block? head).isSome) (callers : List Caller) (globals : Ir.GlobalId → Nat)
    (world : World) (faces : Faces lenient finished run.inside.state env frame) :
    machine.Simulates lenient count
      ((do
        let (flow, env) ← (Action.inBlock (Statement.execEach calls fuel body)) env
        match flow with
        | .leaving .breakLoop => pure (some .onward, env)
        | .onward | .leaving .continueLoop =>
          let (flow, env) ← (Action.inBlock (Statement.execEach calls fuel advance)) env
          match flow with
          | .onward => pure (none, env)
          | .leaving exit => pure (some (.leaving exit), env) : Eval World (Option Flow × Env)) world)
      (.running frame callers globals world)
      (Rounded machine lenient finished head done start.state callers) := by
  obtain ⟨-, -, insideScope, stepScope, -, -⟩ := run.scopes
  have growsStep : run.atStep.state.draft.function.Grows finished :=
    (run.partStep.moves.grows.trans run.returns.grows).trans grows
  have presentStep := run.arrivedStep.isSome_block? growsStep
  obtain ⟨inner, part, afterBody, innerScope⟩ := run.body_inv
  have sameDraft : run.afterBody.state.draft = inner.state.draft := by rw [afterBody]
  have facesLoop : Faces lenient finished (run.inside.inLoop ⟨done, step⟩).state env frame :=
    ⟨faces.stands, faces.tracks⟩
  have acts := executesBody.inBlock (performs_statements body) run.ready
    (run.movesToBody.progress.2.2 pooled) part (sameDraft ▸ run.continues.grows.trans growsStep)
  have growsFalls : (inner.state.draft.fallThrough step).function.Grows finished := by
    rw [run.step_eq] at growsStep
    rw [← sameDraft]
    exact growsStep
  have bodyScope : inner.state.scope = (run.inside.inLoop ⟨done, step⟩).state.scope := innerScope
  have toStep : run.inside.state.draft.function.Grows run.atStep.state.draft.function :=
    run.part.moves.grows.trans run.continues.grows
  apply (simulates_fallThrough numbered presentStep growsFalls bodyScope
    (acts callers globals world facesLoop)).knowing.bind
  rintro ⟨flow, env'⟩ world _ ⟨known, last, globals, rfl, ends⟩
  have goesOn (reaches : Reaches lenient finished step run.inside.state.scope env' last) :=
    simulates_step numbered run executesStep (run.movesToStep.progress.2.2 pooled) grows present
      callers globals world (reaches.faces run.arrivedStep (stepScope.trans insideScope.symm)
        faces.tracks toStep.locals.length_le)
  cases flow with
  | onward => exact goesOn ends
  | leaving exit =>
      obtain ⟨targets, outside, innermost, suffix, reaches⟩ := ends
      obtain rfl : (⟨done, step⟩ : LoopFrame) = targets := Option.some.inj innermost
      -- The body is a block, so what is visible where it is left is what is visible at the head.
      have size : run.inside.state.scope.bindings.reverse.length = outside.length :=
        reaches.entries.length_eq
      rw [List.length_reverse, ← faces.tracks.length_eq] at size
      obtain rfl : outside = env' :=
        suffix.eq_of_length_le (size ▸ length_le_of_inBlock known)
      cases exit with
      | breakLoop =>
          have reaches : Reaches lenient finished done run.inside.state.scope outside last := reaches
          rw [insideScope] at reaches
          exact .ok ⟨last, globals, rfl, reaches⟩
      | continueLoop => exact goesOn reaches

/-- From the head of a loop the machine does what a round does. -/
theorem simulates_round (answers : Answers machine lenient count context arity calls)
    (numbered : finished.Numbered) (proper : condition.isProper arity = true)
    (run : RoundsRun context [] rest condition advance body head step done start finish)
    (executesBody : Executes machine lenient count context finished
      (Statement.lowerEach context body) (Statement.execEach calls fuel body))
    (executesStep : Executes machine lenient count context finished
      (Statement.lowerEach context advance) (Statement.execEach calls fuel advance))
    (pooled : start.state.progress.Pooled)
    (grows : finish.state.draft.function.Grows finished) {bound : Nat} {other : Env}
    {earlier : Frame} (tracks : start.state.scope.Tracks lenient bound other earlier)
    (le : bound ≤ start.state.draft.function.locals.length) {callers : List Caller}
    {world : World} {config : Config World}
    (atHead : AtHead lenient finished head start.state callers env world config) :
    machine.Simulates lenient count
      (Action.round (fun env => condition.eval calls env)
        (Action.inBlock (Statement.execEach calls fuel advance))
        (Action.inBlock (Statement.execEach calls fuel body)) env world) config
      (Rounded machine lenient finished head done start.state callers) := by
  obtain ⟨frame, globals, rfl, reaches⟩ := atHead
  obtain ⟨headScope, -, insideScope, -, -, -⟩ := run.scopes
  have growsInside : run.inside.state.draft.function.Grows finished :=
    run.movesFromInside.grows.trans grows
  have growsEvaluated : run.evaluated.state.draft.function.Grows finished :=
    run.enters.grows.trans growsInside
  have toHead : start.state.draft.function.Grows run.atHead.state.draft.function := run.falls.grows
  have toInside : start.state.draft.function.Grows run.inside.state.draft.function :=
    run.movesToBody.grows
  have presentHead := run.arrived.isSome_block? (run.begins.grows.trans growsEvaluated)
  have facesHead :=
    reaches.faces run.arrived headScope tracks (Nat.le_trans le toHead.locals.length_le)
  have growsExit : (run.evaluated.state.draft.close
      (.branch run.value run.bodyBlock done)).function.Grows finished := by
    rw [run.inside_eq] at growsInside
    exact growsInside
  rw [Action.round]
  apply (simulates_branch answers numbered proper run.evaluates id growsEvaluated growsExit
    (run.entered.isSome_block? growsInside) (run.left.toArrived.isSome_block? grows) callers globals world
    facesHead).bind
  rintro result world _ ⟨later, globals, rfl, reaches⟩
  rw [headScope] at reaches
  by_cases zero : result = 0
  · rw [if_pos zero] at reaches ⊢
    exact .ok ⟨later, globals, rfl, reaches⟩
  · rw [if_neg zero] at reaches ⊢
    exact simulates_body numbered run executesBody executesStep pooled grows presentHead callers globals
      world (reaches.faces run.entered insideScope tracks (Nat.le_trans le toInside.locals.length_le))

/-! ## Loops -/

namespace LoopRun

variable {init : List Statement} (run : LoopRun context [] init condition advance body start finish)

include run

/-- What is visible before a loop, after the statements in front of its rounds, and at its head. -/
theorem scopes : run.inside.state.scope = start.state.scope ∧
    run.made.state.scope = run.afterInit.state.scope ∧
    run.last.state.scope = run.afterInit.state.scope := by
  have inside : run.inside.state.scope = start.state.scope := by rw [run.inside_eq]
  have made : run.made.state.scope = run.afterInit.state.scope := by rw [run.made_eq]
  obtain ⟨-, -, -, -, -, last⟩ := run.rounds.scopes
  exact ⟨inside, made, last.trans made⟩

theorem loops : run.made.state.loops = run.inside.state.loops := by
  rw [run.made_eq]
  exact run.part.performed.loops

theorem grows_made (grows : run.last.state.draft.function.Grows finished) :
    run.made.state.draft.function.Grows finished :=
  (run.rounds.falls.grows.trans run.rounds.movesFromHead.grows).trans grows

theorem grows_inside (grows : run.last.state.draft.function.Grows finished) :
    run.inside.state.draft.function.Grows finished :=
  (run.part.moves.grows.trans run.makes.grows).trans (run.grows_made grows)

end LoopRun

/-- What is in the block of a loop: first the statements in front of the rounds, then the rounds. -/
theorem simulates_loop (answers : Answers machine lenient count context arity calls)
    (numbered : finished.Numbered) (enough : count ≤ fuel) {init : List Statement}
    (proper : condition.isProper arity = true)
    (executesInit : Executes machine lenient count context finished
      (Statement.lowerEach context init) (Statement.execEach calls fuel init))
    (executesStep : Executes machine lenient count context finished
      (Statement.lowerEach context advance) (Statement.execEach calls fuel advance))
    (executesBody : Executes machine lenient count context finished
      (Statement.lowerEach context body) (Statement.execEach calls fuel body))
    (run : LoopRun context [] init condition advance body start finish)
    (pooled : run.inside.inBlock.state.progress.Pooled)
    (grows : run.last.state.draft.function.Grows finished) (callers : List Caller)
    (globals : Ir.GlobalId → Nat) (world : World)
    (faces : Faces lenient finished run.inside.inBlock.state env frame) :
    machine.Simulates lenient count
      ((Statement.execEach calls fuel init).andThen
        (Action.iterate (Action.round (fun env => condition.eval calls env)
          (Action.inBlock (Statement.execEach calls fuel advance))
          (Action.inBlock (Statement.execEach calls fuel body))) fuel) env world)
      (.running frame callers globals world)
      (Acted lenient finished run.inside.inBlock.state run.last.state callers) := by
  have growsMade := run.grows_made grows
  have growsInit : run.afterInit.state.draft.function.Grows finished :=
    run.makes.grows.trans growsMade
  obtain ⟨-, madeScope, lastScope⟩ := run.scopes
  have toMade : run.afterInit.state.draft.function.Grows run.made.state.draft.function :=
    run.makes.grows
  have toLast : run.afterInit.state.draft.function.Grows run.last.state.draft.function :=
    (toMade.trans run.rounds.falls.grows).trans run.rounds.movesFromHead.grows
  have pooledMade := run.makes.progress.2.2 (run.part.moves.progress.2.2 pooled)
  apply (executesInit run.ready pooled run.part growsInit callers globals world faces).bind
  rintro ⟨flow, env⟩ world _ acted
  cases flow with
  | leaving exit => exact .ok (acted.widen rfl (List.prefix_refl _))
  | onward =>
      obtain ⟨later, globals, rfl, facesInit⟩ := acted
      have facesMade : Faces lenient finished run.made.state env later := by
        rw [run.made_eq]
        exact facesInit.newBlock.newBlock.newBlock.newBlock
      have growsHead : run.rounds.atHead.state.draft.function.Grows finished :=
        run.rounds.movesFromHead.grows.trans grows
      have presentHead := run.rounds.arrived.isSome_block? growsHead
      have growsFalls : (run.made.state.draft.fallThrough run.head).function.Grows finished := by
        rw [run.rounds.head_eq] at growsHead
        exact growsHead
      obtain ⟨between, next, steps, goes, reaches⟩ :=
        facesMade.reaches_fallThrough numbered growsFalls presentHead callers globals world
      have atHead : AtHead lenient finished run.head run.made.state callers env world
          (.running next callers globals world) := ⟨next, globals, rfl, reaches⟩
      have rounds := simulates_iterate (fun atHead => simulates_round answers numbered proper
        run.rounds executesBody executesStep pooledMade grows facesMade.tracks (Nat.le_refl _) atHead)
        fuel atHead
      rw [Nat.min_eq_left enough] at rounds
      apply Machine.Simulates.of_steps (steps.tail goes)
      apply rounds.mono
      intro outcome world config passed
      have acted := passed.acted run.rounds.left.toArrived (lastScope.trans madeScope.symm)
        (madeScope ▸ facesInit.tracks) toLast.locals.length_le
      refine acted.of_last run.loops ?_
      rw [madeScope]
      exact run.part.performed.scope.bindings

theorem executes_loop (answers : Answers machine lenient count context arity calls)
    (numbered : finished.Numbered) (enough : count ≤ fuel) {init : List Statement}
    (proper : condition.isProper arity = true)
    (executesInit : Executes machine lenient count context finished
      (Statement.lowerEach context init) (Statement.execEach calls fuel init))
    (executesStep : Executes machine lenient count context finished
      (Statement.lowerEach context advance) (Statement.execEach calls fuel advance))
    (executesBody : Executes machine lenient count context finished
      (Statement.lowerEach context body) (Statement.execEach calls fuel body)) :
    Executes machine lenient count context finished
      ((Statement.loop init condition advance body).lower context)
      ((Statement.loop init condition advance body).exec calls fuel) := by
  intro start finish ready pooled part grows env frame callers globals world faces
  have loopRuns : Runs context [] start _ _ :=
    runs_loop init condition advance body (performs_statements init) (performs_statements advance)
      (performs_statements body) ready faces.stands.ahead.isOpen
  obtain ⟨finish', -, same, ⟨run⟩⟩ := loopRuns.holds part.after
  rw [← same, run.finish_eq] at grows ⊢
  have growsInside := run.grows_inside grows
  have toInside : start.state.draft.function.Grows run.inside.state.draft.function :=
    run.enters.grows
  have toLast : run.inside.state.draft.function.Grows run.last.state.draft.function :=
    ((run.part.moves.grows.trans run.makes.grows).trans run.rounds.falls.grows).trans
      run.rounds.movesFromHead.grows
  obtain ⟨insideScope, madeScope, lastScope⟩ := run.scopes
  have insideLoops : run.inside.state.loops = start.state.loops := by rw [run.inside_eq]
  have growsExit : ((start.state.draft.newBlock "for.init").2.close
      (.jump run.initBlock)).function.Grows finished := by
    rw [run.inside_eq] at growsInside
    exact growsInside
  obtain ⟨between, first, steps, goes, reaches⟩ := faces.newBlock.reaches_goTo numbered
    (.jump run.initBlock) (by simp) growsExit (run.arrived.isSome_block? growsInside) callers globals
    world fun _ _ => rfl
  have facesInside := reaches.faces run.arrived insideScope faces.tracks toInside.locals.length_le
  have pooledInside : run.inside.inBlock.state.progress.Pooled := run.enters.progress.2.2 pooled
  have extends_ : run.inside.state.scope.enter.Extends run.last.state.scope := by
    rw [lastScope]
    exact run.part.performed.scope
  rw [Statement.exec]
  apply Machine.Simulates.of_steps (steps.tail goes)
  have acted := simulates_inBlock facesInside.tracks toLast.locals.length_le extends_
    (simulates_loop answers numbered enough proper executesInit executesStep executesBody run
      pooledInside grows callers globals world facesInside.inBlock)
  apply acted.mono
  intro outcome world config acted
  apply acted.of_last insideLoops
  exact insideScope ▸ List.prefix_refl _

/-! ## All statements -/

mutual

/-- The machine does what a proper statement does. -/
theorem executes_statement (answers : Answers machine lenient count context arity calls)
    (numbered : finished.Numbered) (enough : count ≤ fuel) : (statement : Statement) →
    statement.isProper arity lenient = true →
    Executes machine lenient count context finished (statement.lower context)
      (statement.exec calls fuel)
  | .block body, proper => by
      rw [Statement.lower, Statement.exec]
      exact (executes_statements answers numbered enough body proper).inBlock
        (performs_statements body)
  | .declaration declared none, proper => executes_declare proper
  | .declaration declared (some value), proper => by
      rw [Statement.isProper, Bool.and_eq_true] at proper
      exact executes_initialise answers proper.1 proper.2
  | .assignment names value, proper => executes_assignment answers proper
  | .expression expression, proper => executes_perform answers proper
  | .conditional condition body, proper => by
      rw [Statement.isProper, Bool.and_eq_true] at proper
      exact executes_conditional answers numbered proper.1
        (executes_statements answers numbered enough body proper.2)
  | .switch scrutinee cases, proper => by
      rw [Statement.isProper, Bool.and_eq_true] at proper
      exact executes_switch answers numbered proper.1
        (executes_cases answers numbered enough cases proper.2)
  | .loop init condition step body, proper => by
      simp only [Statement.isProper, Bool.and_eq_true] at proper
      obtain ⟨⟨⟨properInit, properCondition⟩, properStep⟩, properBody⟩ := proper
      exact executes_loop answers numbered enough properCondition
        (executes_statements answers numbered enough init properInit)
        (executes_statements answers numbered enough step properStep)
        (executes_statements answers numbered enough body properBody)
  | .breakLoop, _ => by
      rw [Statement.lower, Statement.exec]
      exact executes_leaveIteration numbered .breakLoop
  | .continueLoop, _ => by
      rw [Statement.lower, Statement.exec]
      exact executes_leaveIteration numbered .continueLoop
  | .definition name _ _ _, _ => by
      rw [Statement.lower]
      exact executes_throw _
  | .label _, _ => by
      rw [Statement.lower]
      exact executes_throw _
  | .stackAssignment _, _ => by
      rw [Statement.lower]
      exact executes_throw _

theorem executes_statements (answers : Answers machine lenient count context arity calls)
    (numbered : finished.Numbered) (enough : count ≤ fuel) : (statements : List Statement) →
    Statement.areProper arity lenient statements = true →
    Executes machine lenient count context finished (Statement.lowerEach context statements)
      (Statement.execEach calls fuel statements)
  | [], _ => by
      rw [Statement.execEach]
      exact executes_nil
  | statement :: rest, proper => by
      rw [Statement.areProper, Bool.and_eq_true] at proper
      rw [Statement.execEach]
      exact executes_cons (executes_statement answers numbered enough statement proper.1)
        (executes_statements answers numbered enough rest proper.2)

theorem executes_cases (answers : Answers machine lenient count context arity calls)
    (numbered : finished.Numbered) (enough : count ≤ fuel) : (cases : List Case) →
    Case.areProper arity lenient cases = true → ∀ case_ ∈ cases,
    Executes machine lenient count context finished (Statement.lowerEach context case_.body)
      (Statement.execEach calls fuel case_.body)
  | [], _, case_, member => by cases member
  | ⟨_, body⟩ :: rest, proper, case_, member => by
      rw [Case.areProper, Bool.and_eq_true] at proper
      rcases List.mem_cons.mp member with rfl | member
      · exact executes_statements answers numbered enough body proper.1
      · exact executes_cases answers numbered enough rest proper.2 case_ member

end

end Lowering

end YulLowering
