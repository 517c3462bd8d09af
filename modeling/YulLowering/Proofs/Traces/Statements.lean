import YulLowering.Proofs.Declarations
import YulLowering.Proofs.Loops
import YulLowering.Proofs.Traces.Expressions

/-!
# Traces of statements

Lowering a statement answers its events, also those in code that control cannot reach. The blocks that the
cursor moves to have been made before, so no instruction is lost.
-/

namespace YulLowering.Lowering

variable {context : Context} {state : State}

/-- A step in a block of its own. -/
theorem Step.Traces.inBlock {step : Step Unit} {events : List Event}
    (traces : step.Traces context events) :
    (Step.inBlock step).Traces context (Event.inBlock events) := by
  intro state anchored
  apply Step.Yields.inBlock
  have still : { state with scope := state.scope.enter }.draft.Anchored := anchored
  apply (traces still).mono
  intro _ later inside
  exact Edit.enter.trace.trans (inside.trans Edit.leave.trace)

/-- A step inside a loop. -/
theorem Step.Traces.inLoop {step : Step Unit} {events : List Event} {targets : LoopFrame}
    (traces : step.Traces context events) : (Step.inLoop targets step).Traces context events := by
  intro state anchored
  apply Step.Yields.inLoop
  have enters : Trace context [] state { state with loops := state.loops.enter targets } :=
    .of_quiet (.of_eq anchored rfl rfl id rfl rfl rfl)
  have still : { state with loops := state.loops.enter targets }.draft.Anchored := anchored
  apply (traces still).mono
  intro _ later inside
  have ends := inside.anchored anchored
  exact (enters.trans inside).trans_silent (.of_quiet (.of_eq ends rfl rfl id rfl rfl rfl))

/-! ## Moving on -/

/-- A block that has been made stays. -/
theorem Trace.bound {events : List Event} {later : State} {block : Ir.BlockId}
    (trace : Trace context events state later)
    (bound : block.index < state.draft.function.blocks.length) :
    block.index < later.draft.function.blocks.length :=
  Nat.lt_of_lt_of_le bound trace.blocks

theorem yields_newBlock (context : Context) (label : String) (known : label ∈ Ir.blockLabels)
    (anchored : state.draft.Anchored) : (newBlock label).Yields state fun block later =>
      Trace context [] state later ∧ block.index < later.draft.function.blocks.length := by
  apply Step.Yields.write
  have more : (state.draft.newBlock label).2.function.blocks.length =
      state.draft.function.blocks.length + 1 := Ir.Draft.length_blocks_newBlock _ _
  have labels : (state.draft.newBlock label).2.function.labels ⊆
      state.draft.function.labels ++ Ir.blockLabels := by
    rw [Ir.Draft.labels_newBlock]
    exact List.append_subset.mpr
      ⟨List.subset_append_left _ _, by simpa using List.mem_append_right _ known⟩
  refine ⟨.of_quiet
    ⟨?_, ⟨1, Ir.Draft.codes_newBlock _ _⟩, rfl, rfl, labels, rfl, id, rfl, rfl, rfl⟩, ?_⟩
  · show state.draft.cursor.index < (state.draft.newBlock label).2.function.blocks.length
    rw [more]
    exact Nat.lt_succ_of_lt anchored
  · show state.draft.function.blocks.length < (state.draft.newBlock label).2.function.blocks.length
    omega

/-- The block under the cursor is closed. -/
theorem traces_close (terminator : Ir.Terminator) :
    (Step.modify fun draft => draft.close terminator).Traces context [] := by
  intro state anchored
  apply Step.Yields.modify
  refine .of_quiet (.of_codes_eq ?_ (by simp) (by simp) (by simp) (by simp))
  unfold Ir.Draft.Anchored
  rw [Ir.Draft.cursor_close, Ir.Draft.length_blocks_close]
  exact anchored

theorem traces_fallThrough (target : Ir.BlockId) :
    (Step.modify fun draft => draft.fallThrough target).Traces context [] := by
  intro state anchored
  apply Step.Yields.modify
  refine .of_quiet (.of_codes_eq ?_ (by simp) (by simp) (by simp) (by simp))
  unfold Ir.Draft.Anchored
  rw [Ir.Draft.cursor_fallThrough, Ir.Draft.length_blocks_fallThrough]
  exact anchored

/-- The cursor moves to a block that has been made. -/
theorem yields_moveTo (context : Context) {block : Ir.BlockId}
    (bound : block.index < state.draft.function.blocks.length) :
    (Step.modify fun draft => draft.moveTo block).Yields state fun _ later =>
      Trace context [] state later := by
  apply Step.Yields.modify
  exact .of_quiet (.of_codes_eq bound rfl rfl rfl rfl)

/-- The block under the cursor is closed, and the cursor moves on. -/
theorem yields_close_moveTo (context : Context) {block : Ir.BlockId} (terminator : Ir.Terminator)
    (bound : block.index < state.draft.function.blocks.length) :
    (Step.modify fun draft => (draft.close terminator).moveTo block).Yields state fun _ later =>
      Trace context [] state later := by
  apply Step.Yields.modify
  refine .of_quiet (.of_codes_eq ?_ (by simp) (by simp) (by simp) (by simp))
  unfold Ir.Draft.Anchored
  rw [Ir.Draft.cursor_moveTo, Ir.Draft.function_moveTo, Ir.Draft.length_blocks_close]
  exact bound

/-- Control falls through to a block, and the cursor moves on. -/
theorem yields_fallThrough_moveTo (context : Context) {block : Ir.BlockId} (target : Ir.BlockId)
    (bound : block.index < state.draft.function.blocks.length) :
    (Step.modify fun draft => (draft.fallThrough target).moveTo block).Yields state fun _ later =>
      Trace context [] state later := by
  apply Step.Yields.modify
  refine .of_quiet (.of_codes_eq ?_ (by simp) (by simp) (by simp) (by simp))
  unfold Ir.Draft.Anchored
  rw [Ir.Draft.cursor_moveTo, Ir.Draft.function_moveTo, Ir.Draft.length_blocks_fallThrough]
  exact bound

theorem traces_openBlock : openBlock.Traces context [] := by
  intro state anchored
  apply Step.Yields.inspect_bind
  split
  · apply Step.Yields.bind (yields_newBlock context "unreachable" (by decide) anchored)
    rintro block made ⟨makes, bound⟩
    apply (yields_moveTo context bound).mono
    intro _ later moves
    exact makes.trans moves
  · exact .pure (.refl state)

theorem traces_leaveIteration (exit : LoopExit) : (leaveIteration exit).Traces context [] := by
  intro state anchored
  apply Step.Yields.inspect_bind
  apply Step.Yields.ofExcept_bind
  intro target _
  exact traces_close (.jump target) anchored

theorem traces_declare (name : String) (type : Ir.ValueType) :
    (Step.declare name type).Traces context [.declared name] :=
  fun _ _ => .of_after rfl (Edit.declare name type).trace

theorem traces_declareAll (declared : List TypedName) :
    (declareAll context declared).Traces context (TypedName.events declared) := by
  induction declared with
  | nil => exact .pure []
  | cons head rest ih =>
      obtain ⟨name, typeName⟩ := head
      apply Step.Traces.ofExcept_bind
      intro type _
      apply (traces_declare name type).bind
      intro slot
      exact ih.bind_silent fun _ => .pure _

/-- Variables that have just been declared have the latest slots. -/
theorem aims_of_reserved {later : State} {targets : List Binding}
    (reserved : Reserved (.resting state) targets (.resting later)) :
    later.Aims (.latest targets.length) targets := by
  have more : later.draft.function.locals.length =
      state.draft.function.locals.length + targets.length := by
    have locals := congrArg List.length reserved.locals
    rwa [List.length_append, List.length_map] at locals
  show targets.map (fun binding => binding.slot.index) =
    List.range' (later.draft.function.locals.length - targets.length) targets.length
  rw [more, Nat.add_sub_cancel]
  exact reserved.slots

/-- The blocks of the arms of a switch, one for each case. -/
theorem yields_newArms (context : Context) (scrutinee : Ir.Value) (cases : List Case)
    (anchored : state.draft.Anchored) :
    (newArms scrutinee cases).Yields state fun blocks later =>
      Trace context [] state later ∧ blocks.arms.length = cases.length ∧
        ∀ block ∈ blocks.arms, block.index < later.draft.function.blocks.length := by
  induction cases generalizing state with
  | nil => exact .pure ⟨.refl state, rfl, by simp⟩
  | cons arm rest ih =>
      obtain ⟨value, body⟩ := arm
      cases value with
      | some literal =>
          apply Step.Yields.bind (yields_newBlock context "switch.case" (by decide) anchored)
          rintro block made ⟨makes, bound⟩
          apply Step.Yields.ofExcept_bind
          intro constant _
          apply Step.Yields.bind (ih (makes.anchored anchored))
          rintro blocks later ⟨others, length, bounds⟩
          exact .pure ⟨makes.trans others, congrArg (· + 1) length,
            List.forall_mem_cons.mpr ⟨others.bound bound, bounds⟩⟩
      | none =>
          apply Step.Yields.bind (yields_newBlock context "switch.default" (by decide) anchored)
          rintro block made ⟨makes, bound⟩
          apply Step.Yields.bind (ih (makes.anchored anchored))
          rintro blocks later ⟨others, length, bounds⟩
          exact .pure ⟨makes.trans others, congrArg (· + 1) length,
            List.forall_mem_cons.mpr ⟨others.bound bound, bounds⟩⟩

/-! ## Structured statements -/

/-- Statements answer their events. -/
abbrev TracesBody (context : Context) (statements : List Statement) : Prop :=
  (Statement.lowerEach context statements).Traces context (Statement.eventsOfEach statements)

theorem traces_conditional (condition : Expression) (body : List Statement)
    (inside : TracesBody context body) :
    ((Statement.conditional condition body).lower context).Traces context
      (Statement.conditional condition body).events := by
  intro state anchored
  rw [Statement.lower, Statement.events]
  apply Step.Yields.bind (traces_lowerToCondition condition anchored)
  intro value evaluated evaluates
  apply Step.Yields.bind (yields_newBlock context "if.then" (by decide) (evaluates.anchored anchored))
  rintro onTrue withThen ⟨makesThen, boundThen⟩
  have toThen := evaluates.trans_silent makesThen
  apply Step.Yields.bind (yields_newBlock context "if.end" (by decide) (toThen.anchored anchored))
  rintro done withEnd ⟨makesEnd, boundEnd⟩
  apply Step.Yields.bind (yields_close_moveTo context _ (makesEnd.bound boundThen))
  intro _ entered enters
  have toBody := (toThen.trans_silent makesEnd).trans_silent enters
  apply Step.Yields.bind (inside.inBlock (toBody.anchored anchored))
  intro _ performed performs
  apply (yields_fallThrough_moveTo context done (performs.bound (enters.bound boundEnd))).mono
  intro _ later leaves
  exact (toBody.trans performs).trans_silent leaves

/-- The bodies of the arms of a switch are lowered into their blocks. -/
theorem traces_cases (done : Ir.BlockId) (cases : List Case) {blocks : List Ir.BlockId}
    (inside : ∀ case_ ∈ cases, TracesBody context case_.body) (length : blocks.length = cases.length)
    (anchored : state.draft.Anchored)
    (bounds : ∀ block ∈ blocks, block.index < state.draft.function.blocks.length) :
    (Case.lowerEach context done cases blocks).Yields state fun _ later =>
      Trace context (Case.eventsOfEach cases) state later := by
  induction cases generalizing state blocks with
  | nil =>
      rw [Case.lowerEach]
      · exact .pure (.refl state)
      · rintro _ _ _ _ _ ⟨⟩
  | cons first cases ih =>
      obtain ⟨value, body⟩ := first
      obtain ⟨block, blocks, rfl⟩ := List.exists_cons_of_length_eq_add_one length
      obtain ⟨bound, bounds⟩ := List.forall_mem_cons.mp bounds
      obtain ⟨insideFirst, insideRest⟩ := List.forall_mem_cons.mp inside
      rw [Case.lowerEach, Case.eventsOfEach]
      apply Step.Yields.bind (yields_moveTo context bound)
      intro _ entered enters
      apply Step.Yields.bind (insideFirst.inBlock (enters.anchored anchored))
      intro _ performed performs
      have toBody := enters.trans performs
      apply Step.Yields.bind (traces_fallThrough done (toBody.anchored anchored))
      intro _ next falls
      have toNext := toBody.trans_silent falls
      apply (ih insideRest (Nat.succ.inj length) (toNext.anchored anchored)
        fun other isOther => toNext.bound (bounds other isOther)).mono
      intro _ later others
      exact toNext.trans others

theorem traces_switch (scrutinee : Expression) (cases : List Case)
    (inside : ∀ case_ ∈ cases, TracesBody context case_.body) :
    ((Statement.switch scrutinee cases).lower context).Traces context
      (Statement.switch scrutinee cases).events := by
  intro state anchored
  rw [Statement.lower, Statement.events]
  apply Step.Yields.bind (traces_lower scrutinee anchored)
  intro value evaluated evaluates
  apply Step.Yields.bind (yields_newBlock context "switch.end" (by decide) (evaluates.anchored anchored))
  rintro done withEnd ⟨makesEnd, boundEnd⟩
  have toEnd := evaluates.trans_silent makesEnd
  apply Step.Yields.bind (yields_newArms context value cases (toEnd.anchored anchored))
  rintro blocks made ⟨makes, length, bounds⟩
  have toArms := toEnd.trans_silent makes
  apply Step.Yields.bind (traces_close _ (toArms.anchored anchored))
  intro _ closed closes
  have toClosed := toArms.trans_silent closes
  apply Step.Yields.bind (traces_cases done cases inside length (toClosed.anchored anchored)
    fun block isArm => closes.bound (bounds block isArm))
  intro _ performed performs
  apply (yields_moveTo context (performs.bound (closes.bound (makes.bound boundEnd)))).mono
  intro _ later leaves
  exact (toClosed.trans performs).trans_silent leaves

/-- The rounds of a loop: the condition, the body and the step, between blocks that have been made. -/
theorem traces_rounds {head body step done : Ir.BlockId} (condition : Expression)
    (advance inside : List Statement) (advances : TracesBody context advance)
    (performs : TracesBody context inside) (anchored : state.draft.Anchored)
    (bounds : ∀ block ∈ [head, body, step, done], block.index < state.draft.function.blocks.length) :
    Step.Yields
      (loopRounds head body step done (condition.lowerToCondition context)
        (Statement.lowerEach context inside) (Statement.lowerEach context advance)) state
      fun _ later => Trace context
        (condition.events ++ Event.inBlock (Statement.eventsOfEach inside) ++
          Event.inBlock (Statement.eventsOfEach advance))
        state later := by
  rw [loopRounds]
  apply Step.Yields.bind (yields_fallThrough_moveTo context head (bounds head (by simp)))
  intro _ atHead toHead
  apply Step.Yields.bind (traces_lowerToCondition condition (toHead.anchored anchored))
  intro value evaluated evaluates
  have toEvaluated := toHead.trans evaluates
  apply Step.Yields.bind (yields_close_moveTo context _ (toEvaluated.bound (bounds body (by simp))))
  intro _ atBody enters
  have toBody := toEvaluated.trans_silent enters
  apply Step.Yields.bind (performs.inBlock.inLoop (toBody.anchored anchored))
  intro _ afterBody bodyTrace
  have toAfterBody := toBody.trans bodyTrace
  apply Step.Yields.bind
    (yields_fallThrough_moveTo context step (toAfterBody.bound (bounds step (by simp))))
  intro _ atStep continues
  have toStep := toAfterBody.trans_silent continues
  apply Step.Yields.bind (advances.inBlock (toStep.anchored anchored))
  intro _ afterStep stepTrace
  have toAfterStep := toStep.trans stepTrace
  apply (yields_fallThrough_moveTo context head (toAfterStep.bound (bounds done (by simp)))).mono
  intro _ later leaves
  exact toAfterStep.trans_silent leaves

theorem traces_loop (init : List Statement) (condition : Expression) (step body : List Statement)
    (begins : TracesBody context init) (advances : TracesBody context step)
    (performs : TracesBody context body) :
    ((Statement.loop init condition step body).lower context).Traces context
      (Statement.loop init condition step body).events := by
  intro state anchored
  rw [Statement.lower_loop, Statement.events]
  apply Step.Yields.bind (yields_newBlock context "for.init" (by decide) anchored)
  rintro initBlock withInit ⟨makesInit, boundInit⟩
  apply Step.Yields.bind (yields_close_moveTo context (.jump initBlock) boundInit)
  intro _ entered enters
  have toInit := makesInit.trans enters
  -- The scope of the whole loop is opened here and closed behind its last round.
  have inLoopScope : Step.Traces context
      (Statement.eventsOfEach init ++
        (condition.events ++ Event.inBlock (Statement.eventsOfEach body) ++
          Event.inBlock (Statement.eventsOfEach step))) (do
      Statement.lowerEach context init
      withLoopBlocks fun head bodyBlock stepBlock done =>
        loopRounds head bodyBlock stepBlock done (condition.lowerToCondition context)
          (Statement.lowerEach context body) (Statement.lowerEach context step)) := by
    apply begins.bind
    intro _ state anchored
    rw [withLoopBlocks]
    apply Step.Yields.bind (yields_newBlock context "for.cond" (by decide) anchored)
    rintro head withHead ⟨makesHead, boundHead⟩
    apply Step.Yields.bind (yields_newBlock context "for.body" (by decide) (makesHead.anchored anchored))
    rintro bodyBlock withBody ⟨makesBody, boundBody⟩
    have toBody := makesHead.trans makesBody
    apply Step.Yields.bind (yields_newBlock context "for.post" (by decide) (toBody.anchored anchored))
    rintro stepBlock withStep ⟨makesStep, boundStep⟩
    have toStep := toBody.trans makesStep
    apply Step.Yields.bind (yields_newBlock context "for.exit" (by decide) (toStep.anchored anchored))
    rintro done made ⟨makesDone, boundDone⟩
    have toDone := toStep.trans makesDone
    apply (traces_rounds condition step body advances performs (toDone.anchored anchored) ?bounds).mono
    case bounds =>
      have fromStep := makesDone.bound boundStep
      have fromBody := makesDone.bound (makesStep.bound boundBody)
      have fromHead := makesDone.bound (makesStep.bound (makesBody.bound boundHead))
      simp [fromStep, fromBody, fromHead, boundDone]
    intro _ later rounds
    exact toDone.trans rounds
  apply (inLoopScope.inBlock (toInit.anchored anchored)).mono
  intro _ later rounds
  exact toInit.trans rounds

mutual

/-- A statement answers its events. -/
theorem traces_statement : (statement : Statement) →
    (statement.lower context).Traces context statement.events
  | .block body => by
      rw [Statement.lower, Statement.events]
      exact (traces_statements body).inBlock
  | .declaration declared none => by
      rw [Statement.lower, Statement.events]
      exact (traces_declareAll declared).bind_silent fun _ => .pure ()
  | .declaration declared (some value) => by
      intro state anchored
      rw [Statement.lower, Statement.events]
      apply Step.Yields.bind
        ((traces_declareAll declared anchored).and (declareAll_yields declared state))
      rintro targets later ⟨declares, reserved, names⟩
      have length : targets.length = declared.length := by
        simpa using congrArg List.length names
      rw [← length]
      apply (yields_assign value (aims_of_reserved reserved) (declares.anchored anchored)).mono
      intro _ finish assigns
      exact declares.trans assigns
  | .assignment names value => by
      intro state anchored
      rw [Statement.lower, Statement.events]
      apply Step.Yields.bind (Step.Yields.lookups names)
      rintro targets _ ⟨rfl, means⟩
      have aims : state.Aims (.named names) targets := means
      exact yields_assign value aims anchored
  | .expression expression => by
      rw [Statement.lower, Statement.events]
      exact traces_perform expression
  | .conditional condition body => traces_conditional condition body (traces_statements body)
  | .switch scrutinee cases => traces_switch scrutinee cases (traces_bodies cases)
  | .loop init condition step body =>
      traces_loop init condition step body (traces_statements init) (traces_statements step)
        (traces_statements body)
  | .breakLoop => by
      rw [Statement.lower, Statement.events]
      exact traces_leaveIteration .breakLoop
  | .continueLoop => by
      rw [Statement.lower, Statement.events]
      exact traces_leaveIteration .continueLoop
  | .definition name _ _ _ => by
      rw [Statement.lower]
      exact .throw _ _
  | .label _ => by
      rw [Statement.lower]
      exact .throw _ _
  | .stackAssignment _ => by
      rw [Statement.lower]
      exact .throw _ _

theorem traces_statements : (statements : List Statement) → TracesBody context statements
  | [] => by
      unfold TracesBody
      rw [Statement.lowerEach, Statement.eventsOfEach]
      exact .pure ()
  | statement :: rest => by
      unfold TracesBody
      rw [Statement.lowerEach, Statement.eventsOfEach]
      apply traces_openBlock.silent_bind
      intro _
      exact (traces_statement statement).bind fun _ => traces_statements rest

theorem traces_bodies : (cases : List Case) → ∀ case_ ∈ cases, TracesBody context case_.body
  | [], case_, member => by cases member
  | ⟨_, body⟩ :: rest, case_, member => by
      rcases List.mem_cons.mp member with rfl | member
      · exact traces_statements body
      · exact traces_bodies rest case_ member

end

end YulLowering.Lowering
