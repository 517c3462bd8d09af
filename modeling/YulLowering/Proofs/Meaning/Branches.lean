import YulLowering.Proofs.Meaning.Statements

/-!
# Conditionals and switches on the machine

A branch takes the machine to the block that the source chooses. What is there has been lowered in a
block of its own, and control goes on at the block after it, unless it has left an iteration.
-/

namespace YulLowering

/-! ## Arms -/

/-- From arms that correspond to each other, corresponding ones are chosen. -/
theorem chosenArm_rel {α β : Type} {related : α → β → Prop} {arms : List (Option Literal × α)}
    {others : List (Option Literal × β)} (value : Nat)
    (correspond : List.Forall₂ (fun arm other => arm.1 = other.1 ∧ related arm.2 other.2) arms
      others) :
    Option.Rel related (chosenArm value arms) (chosenArm value others) := by
  have finds (holds : Option Literal → Bool) {arms : List (Option Literal × α)}
      {others : List (Option Literal × β)}
      (correspond : List.Forall₂ (fun arm other => arm.1 = other.1 ∧ related arm.2 other.2) arms
        others) :
      Option.Rel related ((arms.find? fun arm => holds arm.1).map Prod.snd)
        ((others.find? fun arm => holds arm.1).map Prod.snd) := by
    induction correspond with
    | nil => exact .none
    | cons here _ ih =>
        rw [List.find?_cons, List.find?_cons, here.1]
        split
        · exact .some here.2
        · exact ih
  have equal := finds (fun label => label.any fun literal => literal.value? == some value) correspond
  have default := finds Option.isNone (List.forall₂_reverse_iff.mpr correspond)
  have either {first second : Option α} {other another : Option β}
      (former : Option.Rel related first other) (latter : Option.Rel related second another) :
      Option.Rel related (first.or second) (other.or another) := by
    cases former with
    | some here => exact .some here
    | none => exact latter
  rw [chosenArm, chosenArm, Option.map_or, Option.map_or]
  exact either equal default

namespace Lowering

open Ir (Frame Caller Config Machine)

variable {World : Type} {machine : Machine World} {lenient : Bool} {count : Nat}
  {context : Context} {arity : String → Option Nat} {calls : Calls World}
  {fuel : Nat} {finished : Ir.Function} {before after : State} {frame : Frame} {env : Env}

/-! ## Going on behind a statement -/

theorem Arrived.isSome_block? {block : Ir.BlockId} {stage : Stage} (arrived : Arrived block stage)
    (grows : stage.state.draft.function.Grows finished) : (finished.block? block).isSome := by
  obtain ⟨-, -, label, fresh⟩ := arrived
  apply grows.isSome_block?
  rw [show stage.state.draft.function.block? block = _ from fresh]
  rfl

/-- Control has passed on to a block, or it has left an iteration. -/
def Passed (lenient : Bool) (finished : Ir.Function) (target : Ir.BlockId) (before : State)
    (callers : List Caller) (outcome : Flow × Env) (world : World) (config : Config World) : Prop :=
  ∃ later globals, config = .running later callers globals world ∧
    match outcome.1 with
    | .onward => Reaches lenient finished target before.scope outcome.2 later
    | .leaving exit => ∃ targets outside, before.loops.innermost? = some targets ∧
        outside <:+ outcome.2 ∧
        Reaches lenient finished (targets.target exit) before.scope outside later

/-- Behind statements that leave the scope alone control falls through. -/
theorem simulates_fallThrough (numbered : finished.Numbered)
    {source : Except Stop ((Flow × Env) × World)} {config : Config World} {callers : List Caller}
    {target : Ir.BlockId} (present : (finished.block? target).isSome)
    (grows : (after.draft.fallThrough target).function.Grows finished)
    (scope : after.scope = before.scope)
    (simulates : machine.Simulates lenient count source config
      (Acted lenient finished before after callers)) :
    machine.Simulates lenient count source config
      (Passed lenient finished target before callers) := by
  apply simulates.andSteps
  rintro ⟨flow, env⟩ world _ ⟨frame, globals, rfl, ends⟩
  cases flow with
  | onward =>
      obtain ⟨between, later, steps, goes, reaches⟩ :=
        ends.reaches_fallThrough numbered grows present callers globals world
      rw [scope] at reaches
      exact ⟨_, steps.tail goes, later, globals, rfl, reaches⟩
  | leaving exit => exact ⟨_, .refl, frame, globals, rfl, ends⟩

theorem Passed.of_eq {target : Ir.BlockId} {inner : State} {callers : List Caller}
    {outcome : Flow × Env} {world : World} {config : Config World}
    (passed : Passed lenient finished target inner callers outcome world config)
    (scope : inner.scope = before.scope) (loops : inner.loops = before.loops) :
    Passed lenient finished target before callers outcome world config := by
  rw [Passed, scope, loops] at passed
  exact passed

/-- The cursor goes to the block where control has passed on. -/
theorem Passed.acted {target : Ir.BlockId} {finish : Stage} {callers : List Caller}
    {outcome : Flow × Env} {world : World} {config : Config World} {bound : Nat} {other : Env}
    {earlier : Frame} (passed : Passed lenient finished target before callers outcome world config)
    (arrived : Arrived target finish) (scope : finish.state.scope = before.scope)
    (tracks : before.scope.Tracks lenient bound other earlier)
    (le : bound ≤ finish.state.draft.function.locals.length) :
    Acted lenient finished before finish.state callers outcome world config := by
  obtain ⟨flow, env⟩ := outcome
  obtain ⟨later, globals, rfl, ends⟩ := passed
  refine ⟨later, globals, rfl, ?_⟩
  cases flow with
  | onward => exact ends.faces arrived scope tracks le
  | leaving exit => exact ends

/-! ## Conditionals -/

/-- A condition is evaluated, and then the machine goes to one of two blocks. Blocks may be made in between,
which is what `makes` says. -/
theorem simulates_branch (answers : Answers machine lenient count context arity calls)
    (numbered : finished.Numbered) {condition : Expression} (proper : condition.isProper arity = true)
    {value : Ir.Value} (lowered : (condition.lowerToCondition context).after before = (.ok value, after))
    {made : Ir.Draft} {onTrue onFalse : Ir.BlockId}
    (makes : ∀ {frame : Frame}, Faces lenient finished after env frame →
      Faces lenient finished { after with draft := made } env frame)
    (grows : after.draft.function.Grows finished)
    (growsExit : (made.close (.branch value onTrue onFalse)).function.Grows finished)
    (presentTrue : (finished.block? onTrue).isSome) (presentFalse : (finished.block? onFalse).isSome)
    (callers : List Caller) (globals : Ir.GlobalId → Nat) (world : World)
    (faces : Faces lenient finished before env frame) :
    machine.Simulates lenient count (condition.eval calls env world)
      (.running frame callers globals world)
      fun result world config => ∃ later globals, config = .running later callers globals world ∧
        Reaches lenient finished (if result = 0 then onFalse else onTrue) before.scope env later := by
  have goes := goes_lowerToCondition faces.stands.ahead.isOpen lowered
  apply (simulates_lowerToCondition answers proper lowered grows callers globals world faces.stands
    (faces.tracks.reads _)).andSteps
  rintro result world _ ⟨between, globals, rfl, stands, locals, content, held, isZero⟩
  have facesMade := makes (faces.of_locals_eq stands locals goes.scope goes.grows)
  have present : (finished.block? (if content = 0 then onFalse else onTrue)).isSome := by
    split
    · exact presentFalse
    · exact presentTrue
  obtain ⟨ended, later, steps, leaves, reaches⟩ := facesMade.reaches_goTo numbered
    (.branch value onTrue onFalse) (by simp) growsExit present callers globals world
    fun later values => by rw [Machine.leave, values, held]
  rw [show after.scope = before.scope from goes.scope, if_congr isZero rfl rfl] at reaches
  exact ⟨_, steps.tail leaves, later, globals, rfl, reaches⟩

/-- What is visible is the same at every point between the parts of a conditional. -/
theorem ConditionalRun.scopes {condition : Expression} {body : List Statement} {start finish : Stage}
    (run : ConditionalRun context [] condition body start finish) (isOpen : start.draft.IsOpen) :
    run.inside.state.scope = start.state.scope ∧
      run.performed.state.scope = run.inside.state.scope ∧
      finish.state.scope = start.state.scope := by
  have goes := goes_lowerToCondition isOpen run.evaluates
  have inside : run.inside.state.scope = start.state.scope := by
    rw [run.inside_eq]
    exact goes.scope
  obtain ⟨-, -, -, performed⟩ := (performs_statements body).inBlock_inv run.ready run.part.after
  refine ⟨inside, performed, ?_⟩
  rw [run.finish_eq]
  exact performed.trans inside

theorem executes_conditional (answers : Answers machine lenient count context arity calls)
    (numbered : finished.Numbered) {condition : Expression} {body : List Statement}
    (proper : condition.isProper arity = true)
    (executes : Executes machine lenient count context finished (Statement.lowerEach context body)
      (Statement.execEach calls fuel body)) :
    Executes machine lenient count context finished
      ((Statement.conditional condition body).lower context)
      ((Statement.conditional condition body).exec calls fuel) := by
  intro start finish ready pooled part grows env frame callers globals world faces
  have isOpen := faces.stands.ahead.isOpen
  obtain ⟨finish', -, same, ⟨run⟩⟩ :=
    (runs_conditional condition body (performs_statements body) ready isOpen).holds part.after
  rw [← same] at grows ⊢
  have growsPerformed : run.performed.state.draft.function.Grows finished :=
    run.falls.grows.trans grows
  have growsInside : run.inside.state.draft.function.Grows finished :=
    run.part.moves.grows.trans growsPerformed
  have goes := goes_lowerToCondition isOpen run.evaluates
  obtain ⟨insideScope, performedScope, finishScope⟩ := run.scopes isOpen
  have toInside : start.state.draft.function.Grows run.inside.state.draft.function :=
    goes.grows.trans run.enters.grows
  have toFinish : start.state.draft.function.Grows finish'.state.draft.function :=
    (toInside.trans run.part.moves.grows).trans run.falls.grows
  have presentDone := run.left.toArrived.isSome_block? grows
  have presentTrue := run.entered.toArrived.isSome_block? growsInside
  have growsExit : (((run.evaluated.draft.newBlock "if.then").2.newBlock "if.end").2.close
      (.branch run.value run.onTrue run.done)).function.Grows finished := by
    rw [run.inside_eq] at growsInside
    exact growsInside
  rw [Statement.exec]
  apply (simulates_branch answers numbered proper run.evaluates (fun faces => faces.newBlock.newBlock)
    (run.enters.grows.trans growsInside) growsExit presentTrue presentDone callers globals world faces).bind
  rintro result world _ ⟨later, globals, rfl, reaches⟩
  by_cases zero : result = 0
  · rw [if_pos zero] at reaches ⊢
    exact .ok ⟨later, globals, rfl,
      reaches.faces run.left.toArrived finishScope faces.tracks toFinish.locals.length_le⟩
  · rw [if_neg zero] at reaches ⊢
    have facesInside :=
      reaches.faces run.entered.toArrived insideScope faces.tracks toInside.locals.length_le
    have pooledInside := run.enters.progress.2.2 (run.begins.progress.2.2 pooled)
    have acts := executes.inBlock (performs_statements body) run.ready pooledInside run.part
      growsPerformed
    have growsFalls : (run.performed.state.draft.fallThrough run.done).function.Grows finished := by
      rw [run.finish_eq] at grows
      exact grows
    apply (simulates_fallThrough numbered presentDone growsFalls performedScope
      (acts callers globals world facesInside)).mono
    intro outcome world config passed
    exact (passed.of_eq insideScope run.entered.loops).acted run.left.toArrived finishScope
      faces.tracks toFinish.locals.length_le

/-! ## Switches -/

/-- The machine goes to the arm that the source chooses, or else behind the switch. -/
theorem Arms.switchTarget_eq {scrutinee : Ir.Value} {cases : List Case} {blocks : SwitchBlocks}
    (arms : Arms scrutinee cases blocks) (done : Ir.BlockId) (content : Nat) :
    Ir.switchTarget blocks.constants (blocks.default.getD done) content =
      (chosenArm content ((cases.map Case.value).zip blocks.arms)).getD done := by
  rw [Ir.switchTarget, arms.find_constants, arms.find_default, chosenArm, Option.map_or]
  cases Option.map Prod.snd (List.find? _ ((cases.map Case.value).zip blocks.arms)) <;> rfl

theorem Arms.switchTarget_mem {scrutinee : Ir.Value} {cases : List Case} {blocks : SwitchBlocks}
    (arms : Arms scrutinee cases blocks) (done : Ir.BlockId) (content : Nat) :
    Ir.switchTarget blocks.constants (blocks.default.getD done) content ∈ done :: blocks.arms := by
  unfold Ir.switchTarget
  cases found : blocks.constants.find? fun arm => arm.1 == content with
  | some arm =>
      exact List.mem_cons_of_mem _ (arms.constants arm (List.mem_of_find?_eq_some found)).2
  | none =>
      cases isDefault : blocks.default with
      | none => exact List.mem_cons_self
      | some block => exact List.mem_cons_of_mem _ (arms.default block isDefault)

/-- Blocks for arms may be made at any place. -/
theorem Faces.newArms {scrutinee : Ir.Value} {cases : List Case} {blocks : SwitchBlocks}
    (faces : Faces lenient finished before env frame)
    (lowered : (newArms scrutinee cases).after before = (.ok blocks, after)) :
    Faces lenient finished after env frame := by
  induction cases generalizing before blocks with
  | nil =>
      obtain ⟨-, rfl⟩ := Prod.mk.inj lowered
      exact faces
  | cons arm rest ih =>
      obtain ⟨value, body⟩ := arm
      cases value with
      | some literal =>
          obtain ⟨block, middle, makes, lowered⟩ := Step.bind_inv lowered
          obtain ⟨-, rfl⟩ := Prod.mk.inj makes
          obtain ⟨constant, -, lowered⟩ := Step.ofExcept_bind_inv lowered
          obtain ⟨others, last, more, ends⟩ := Step.bind_inv lowered
          obtain ⟨-, rfl⟩ := Prod.mk.inj ends
          exact ih faces.newBlock more
      | none =>
          obtain ⟨block, middle, makes, lowered⟩ := Step.bind_inv lowered
          obtain ⟨-, rfl⟩ := Prod.mk.inj makes
          obtain ⟨others, last, more, ends⟩ := Step.bind_inv lowered
          obtain ⟨-, rfl⟩ := Prod.mk.inj ends
          exact ih faces.newBlock more

/-- From the start of its block the machine does what an arm does, and goes on behind the switch. -/
def ArmActs (machine : Machine World) (lenient : Bool) (count : Nat) (finished : Ir.Function)
    (before : State) (done : Ir.BlockId) (action : Action World) (block : Ir.BlockId) : Prop :=
  ∀ ⦃env frame⦄ (callers : List Caller) (globals : Ir.GlobalId → Nat) (world : World),
    Reaches lenient finished block before.scope env frame →
    machine.Simulates lenient count (action env world) (.running frame callers globals world)
      (Passed lenient finished done before callers)

/-- What is visible is the same before and after an arm. -/
theorem ArmRun.scopes {done block : Ir.BlockId} {body : List Statement} {start finish : Stage}
    (run : ArmRun context [] done body block start finish) :
    run.inside.state.scope = start.state.scope ∧
      run.performed.state.scope = run.inside.state.scope ∧
      finish.state.scope = start.state.scope ∧ finish.state.loops = start.state.loops := by
  have inside : run.inside.state.scope = start.state.scope := by rw [run.inside_eq]
  have loops : run.inside.state.loops = start.state.loops := by rw [run.inside_eq]
  obtain ⟨-, -, -, performed⟩ := (performs_statements body).inBlock_inv run.ready run.part.after
  refine ⟨inside, performed, ?_, ?_⟩
  · rw [run.finish_eq]
    exact performed.trans inside
  · rw [run.finish_eq]
    exact run.part.performed.loops.trans loops

theorem CasesRun.scope {done : Ir.BlockId} {cases : List Case} {blocks : List Ir.BlockId}
    {start finish : Stage} (run : CasesRun context [] done cases blocks start finish) :
    finish.state.scope = start.state.scope := by
  induction run with
  | nil stage => rfl
  | cons arm _ ih => exact ih.trans arm.scopes.2.2.1

theorem CasesRun.moves {done : Ir.BlockId} {cases : List Case} {blocks : List Ir.BlockId}
    {start finish : Stage} (run : CasesRun context [] done cases blocks start finish) :
    Moves context [] start finish := by
  induction run with
  | nil stage => exact .refl
  | cons arm _ ih => exact ((arm.enters.trans arm.part.moves).trans arm.falls).trans ih

/-- Arms do what has been lowered for them. -/
theorem acts_cases (numbered : finished.Numbered) {done : Ir.BlockId} {cases : List Case}
    {blocks : List Ir.BlockId} {start finish : Stage}
    (run : CasesRun context [] done cases blocks start finish)
    (executes : ∀ case_ ∈ cases, Executes machine lenient count context finished
      (Statement.lowerEach context case_.body) (Statement.execEach calls fuel case_.body))
    (pooled : start.state.progress.Pooled)
    (grows : finish.state.draft.function.Grows finished)
    (present : (finished.block? done).isSome) (scope : start.state.scope = before.scope)
    (loops : start.state.loops = before.loops) {bound : Nat} {other : Env} {earlier : Frame}
    (tracks : before.scope.Tracks lenient bound other earlier)
    (le : bound ≤ start.state.draft.function.locals.length) :
    List.Forall₂ (fun arm label => arm.1 = label.1 ∧
        ArmActs machine lenient count finished before done arm.2 label.2)
      (Case.execEach calls fuel cases) ((cases.map Case.value).zip blocks) := by
  induction run with
  | nil stage =>
      rw [Case.execEach]
      exact .nil
  | @cons value body cases block blocks start middle finish arm rest ih =>
      obtain ⟨executesBody, executesRest⟩ := List.forall_mem_cons.mp executes
      obtain ⟨insideScope, performedScope, middleScope, middleLoops⟩ := arm.scopes
      have toMiddle : Moves context [] start middle :=
        (arm.enters.trans arm.part.moves).trans arm.falls
      have growsMiddle : middle.state.draft.function.Grows finished := rest.moves.grows.trans grows
      have toMiddleLocals : start.state.draft.function.Grows middle.state.draft.function :=
        toMiddle.grows
      rw [Case.execEach]
      refine .cons ⟨rfl, ?_⟩ (ih executesRest (toMiddle.progress.2.2 pooled) grows
        (middleScope.trans scope) (middleLoops.trans loops)
        (Nat.le_trans le toMiddleLocals.locals.length_le))
      intro env frame callers globals world reaches
      have toInside : start.state.draft.function.Grows arm.inside.state.draft.function :=
        arm.enters.grows
      have facesInside := reaches.faces arm.arrived (insideScope.trans scope) tracks
        (Nat.le_trans le toInside.locals.length_le)
      have acts := executesBody.inBlock (performs_statements body) arm.ready
        (arm.enters.progress.2.2 pooled) arm.part (arm.falls.grows.trans growsMiddle)
      have growsFalls : (arm.performed.state.draft.fallThrough done).function.Grows finished := by
        rw [arm.finish_eq] at growsMiddle
        exact growsMiddle
      have insideLoops : arm.inside.state.loops = start.state.loops := by rw [arm.inside_eq]
      apply (simulates_fallThrough numbered present growsFalls performedScope
        (acts callers globals world facesInside)).mono
      intro outcome world config passed
      exact passed.of_eq (insideScope.trans scope) (insideLoops.trans loops)

theorem executes_switch (answers : Answers machine lenient count context arity calls)
    (numbered : finished.Numbered) {scrutinee : Expression} {cases : List Case}
    (proper : scrutinee.isProper arity = true)
    (executes : ∀ case_ ∈ cases, Executes machine lenient count context finished
      (Statement.lowerEach context case_.body) (Statement.execEach calls fuel case_.body)) :
    Executes machine lenient count context finished
      ((Statement.switch scrutinee cases).lower context)
      ((Statement.switch scrutinee cases).exec calls fuel) := by
  intro start finish ready pooled part grows env frame callers globals world faces
  have isOpen := faces.stands.ahead.isOpen
  have performs : ∀ case_ ∈ cases, Performs context [] (Statement.lowerEach context case_.body) :=
    performs_cases cases
  obtain ⟨finish', -, same, ⟨run⟩⟩ := (runs_switch scrutinee cases performs ready isOpen).holds part.after
  rw [← same] at grows ⊢
  have growsPerformed : run.performed.state.draft.function.Grows finished :=
    run.leaves.grows.trans grows
  have growsClosed : run.closed.state.draft.function.Grows finished :=
    run.performs.grows.trans growsPerformed
  have growsMade : run.made.state.draft.function.Grows finished := run.closes.grows.trans growsClosed
  have goes := goes_lower isOpen run.evaluates
  have toClosed : Moves context [] start run.closed :=
    (run.begins.trans run.makes).trans run.closes
  have toClosedLocals : start.state.draft.function.Grows run.closed.state.draft.function :=
    toClosed.grows
  have toFinish : start.state.draft.function.Grows finish'.state.draft.function :=
    (toClosedLocals.trans run.performs.grows).trans run.leaves.grows
  have finishScope : finish'.state.scope = start.state.scope := by
    rw [run.finish_eq]
    exact run.cases.scope.trans run.scope
  have presentDone := run.left.toArrived.isSome_block? grows
  rw [Statement.exec]
  apply (evaluates_lower answers scrutinee proper run.evaluates (run.makes.grows.trans growsMade)
    callers globals world faces.stands (faces.tracks.reads _)).bind
  rintro result world _ ⟨between, globals, rfl, computes⟩
  obtain ⟨⟨-, held⟩, -⟩ := List.forall₂_cons.mp computes.values
  have facesEvaluated := faces.of_locals_eq computes.stands computes.locals goes.scope goes.grows
  have facesMade : Faces lenient finished run.made.state env between :=
    facesEvaluated.newBlock.newArms run.made_eq
  let exit : Ir.Terminator :=
    .switch run.value run.blocks.constants (run.blocks.default.getD run.done)
  have growsExit : (run.made.state.draft.close exit).function.Grows finished := by
    rw [run.closed_eq] at growsClosed
    exact growsClosed
  have present := growsMade.isSome_block? (run.present _ (run.arms.switchTarget_mem run.done result))
  obtain ⟨ended, later, steps, leaves, reaches⟩ := facesMade.reaches_goTo numbered exit (by simp [exit])
    growsExit present callers globals world fun later values => by
      rw [Machine.leave, values, held]
  apply Machine.Simulates.of_steps (steps.tail leaves)
  have madeScope : run.made.state.scope = start.state.scope := by
    rw [← run.scope, run.closed_eq]
  rw [run.arms.switchTarget_eq, madeScope] at reaches
  have chosen := chosenArm_rel result (acts_cases numbered run.cases executes
    (toClosed.progress.2.2 pooled) growsPerformed presentDone run.scope run.loops faces.tracks
    toClosedLocals.locals.length_le)
  generalize chosenArm result (Case.execEach calls fuel cases) = action at chosen ⊢
  generalize chosenArm result ((cases.map Case.value).zip run.blocks.arms) = block at chosen reaches
  cases chosen with
  | none =>
      exact .ok ⟨later, globals, rfl, reaches.faces run.left.toArrived finishScope faces.tracks
        toFinish.locals.length_le⟩
  | some acts =>
      apply (acts callers globals world reaches).mono
      intro outcome world config passed
      exact passed.acted run.left.toArrived finishScope faces.tracks toFinish.locals.length_le

end Lowering

end YulLowering
