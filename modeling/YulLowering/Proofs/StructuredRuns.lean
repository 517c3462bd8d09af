import YulLowering.Proofs.Loops
import YulLowering.Proofs.StatementRuns

/-!
# Structured statements as runs of moves

How blocks, conditionals, switches and loops are lowered is told part by part: the stages between the
parts, what each part has done to the state, and where control goes on. That a statement leaves nothing
behind that it has begun follows by recursion over the syntax.
-/

namespace YulLowering.Lowering

variable {context : Context} {outer : List Ir.BlockId} {start : Stage}

/-- A step that, wherever it is taken, leaves nothing behind that it has begun. -/
def Performs (context : Context) (outer : List Ir.BlockId) (step : Step Unit) : Prop :=
  ∀ ⦃start⦄, Ready outer start →
    Runs context outer start step fun _ finish => Performed start finish

/-- A stage inside a block of its own. -/
def Stage.inBlock (stage : Stage) : Stage :=
  { stage with state := { stage.state with scope := stage.state.scope.enter } }

/-- A stage inside a loop. -/
def Stage.inLoop (stage : Stage) (targets : LoopFrame) : Stage :=
  { stage with state := { stage.state with loops := stage.state.loops.enter targets } }

theorem Ready.inBlock (ready : Ready outer start) : Ready outer start.inBlock :=
  ⟨ready.settled, ready.idle, ready.lead⟩

/-- What a loop exit leads to has to wait while the body of the loop is lowered. -/
theorem Ready.inLoop (ready : Ready outer start) {targets : LoopFrame}
    (waits : ∀ exit, targets.target exit ∈ start.waiting) : Ready outer (start.inLoop targets) := by
  refine ⟨ready.settled, ready.idle, ?_⟩
  intro other enclosing exit
  rcases List.mem_cons.mp enclosing with rfl | enclosing
  · exact .inl (waits exit)
  · exact ready.lead other enclosing exit

/-- A block of its own is no different from what is in it. -/
theorem Performs.inBlock {step : Step Unit} (performs : Performs context outer step) :
    Performs context outer (Step.inBlock step) := by
  intro start ready
  apply Runs.inBlock
  apply (performs ready.inBlock).mono
  intro _ finish performed
  have left : start.state.scope.Extends finish.state.scope.leave := by
    rw [performed.scope.leave_eq]
    exact .refl _
  exact ⟨performed.loops, left, performed.announced, performed.pending, performed.waiting⟩

theorem Performs.inLoop {step : Step Unit} (performs : Performs context outer step)
    {targets : LoopFrame} (ready : Ready outer (start.inLoop targets)) :
    Runs context outer start (Step.inLoop targets step) fun _ finish => Performed start finish := by
  apply Runs.inLoop
  apply (performs ready).mono
  intro _ finish performed
  exact ⟨congrArg Loops.leave performed.loops, performed.scope, performed.announced,
    performed.pending, performed.waiting⟩

/-- Statements that are part of another one have been lowered. -/
structure Part (context : Context) (outer : List Ir.BlockId) (step : Step Unit)
    (start finish : Stage) : Prop where
  moves : Moves context outer start finish
  performed : Performed start finish
  after : step.after start.state = (.ok (), finish.state)

theorem Runs.part {step : Step Unit}
    (runs : Runs context outer start step fun _ finish => Performed start finish) :
    Runs context outer start step fun _ finish => Part context outer step start finish := by
  obtain ⟨finish, moves, after, holds⟩ := runs.recorded
  refine ⟨finish, moves, after, ?_⟩
  intro result succeeds
  obtain ⟨performed, equation⟩ := holds result succeeds
  exact ⟨moves, performed, equation⟩

/-- A block of its own that has been lowered: what is in it has been lowered, and after it the visible
declarations are those before it. -/
theorem Performs.inBlock_inv {step : Step Unit} (performs : Performs context outer step)
    (ready : Ready outer start) {last : State}
    (succeeds : (Step.inBlock step).after start.state = (.ok (), last)) :
    ∃ finish, Part context outer step start.inBlock finish ∧
      last = { finish.state with scope := finish.state.scope.leave } ∧
      last.scope = start.state.scope := by
  cases taken : step.after start.inBlock.state with
  | mk outcome later =>
      have whole : (Step.inBlock step).after start.state =
          (outcome, { later with scope := later.scope.leave }) :=
        congrArg (fun after : Except Fault Unit × State =>
          (after.1, { after.2 with scope := after.2.scope.leave })) taken
      rw [whole] at succeeds
      cases succeeds
      obtain ⟨finish, -, rfl, part⟩ := (performs ready.inBlock).part.holds taken
      exact ⟨finish, part, rfl, part.performed.scope.leave_eq⟩

/-- The body of a loop that has been lowered: after it the loops are those around it. -/
theorem Performs.inLoop_inv {step : Step Unit} (performs : Performs context outer step)
    {targets : LoopFrame} (ready : Ready outer (start.inLoop targets)) {last : State}
    (succeeds : (Step.inLoop targets step).after start.state = (.ok (), last)) :
    ∃ finish, Part context outer step (start.inLoop targets) finish ∧
      last = { finish.state with loops := start.state.loops } := by
  cases taken : step.after (start.inLoop targets).state with
  | mk outcome later =>
      have whole : (Step.inLoop targets step).after start.state =
          (outcome, { later with loops := later.loops.leave }) :=
        congrArg (fun after : Except Fault Unit × State =>
          (after.1, { after.2 with loops := after.2.loops.leave })) taken
      rw [whole] at succeeds
      cases succeeds
      obtain ⟨finish, -, rfl, part⟩ := (performs ready).part.holds taken
      refine ⟨finish, part, ?_⟩
      rw [part.performed.loops]
      rfl

/-- A loop exit leads out of the innermost loop. -/
theorem Loops.innermost_of_target {loops : Loops} {exit : LoopExit} {target : Ir.BlockId}
    (isTarget : loops.target exit = .ok target) :
    ∃ frame, loops.innermost? = some frame ∧ frame.target exit = target := by
  unfold Loops.target at isTarget
  split at isTarget
  · next frame innermost => exact ⟨frame, innermost, Except.ok.inj isTarget⟩
  · cases isTarget

theorem runs_leaveIteration (exit : LoopExit) (ready : Ready outer start)
    (isOpen : start.draft.IsOpen) :
    Runs context outer start (leaveIteration exit) fun _ finish => Performed start finish := by
  apply Runs.inspect_bind
  apply Runs.ofExcept_bind
  intro target isTarget
  obtain ⟨frame, innermost, rfl⟩ := Loops.innermost_of_target isTarget
  have known := ready.lead frame (List.mem_of_mem_head? innermost) exit
  exact .of_move (.close (.jump (frame.target exit)) isOpen ready.idle (.jump _ known)) rfl
    ⟨rfl, .refl _, rfl, ready.idle.symm, rfl⟩

/-! ## Conditionals -/

/-- How a conditional has been lowered: the condition, the body in a block of its own, and the block
where control goes on. -/
structure ConditionalRun (context : Context) (outer : List Ir.BlockId) (condition : Expression)
    (body : List Statement) (start finish : Stage) where
  value : Ir.Value
  onTrue : Ir.BlockId
  done : Ir.BlockId
  evaluated : Stage
  inside : Stage
  performed : Stage
  begins : Moves context outer start evaluated
  evaluates : (condition.lowerToCondition context).after start.state = (.ok value, evaluated.state)
  enters : Moves context outer evaluated inside
  inside_eq : inside.state = { evaluated.state with
    draft := (((evaluated.draft.newBlock "if.then").2.newBlock "if.end").2.close
      (.branch value onTrue done)).moveTo onTrue }
  entered : Entered start start.pending (done :: start.waiting) onTrue inside
  ready : Ready outer inside
  part : Part context outer (Step.inBlock (Statement.lowerEach context body)) inside performed
  falls : Moves context outer performed finish
  finish_eq : finish.state = { performed.state with
    draft := (performed.draft.fallThrough done).moveTo done }
  left : Entered start start.pending start.waiting done finish

theorem runs_conditional (condition : Expression) (body : List Statement)
    (performsBody : Performs context outer (Statement.lowerEach context body))
    (ready : Ready outer start) (isOpen : start.draft.IsOpen) :
    Runs context outer start ((Statement.conditional condition body).lower context)
      fun _ finish => Nonempty (ConditionalRun context outer condition body start finish) := by
  rw [Statement.lower]
  apply Runs.bind (runs_lowerToCondition condition isOpen).recorded
  rintro value evaluated evaluates ⟨⟨begun, isCondition⟩, evaluatesTo⟩
  apply Runs.bind (runs_newBlock "if.then")
  rintro onTrue _ makesThen ⟨isThen, rfl⟩
  apply Runs.bind (runs_newBlock "if.end")
  rintro done _ makesEnd ⟨isEnd, rfl⟩
  have made := (begun.withBlock "if.then").withBlock "if.end"
  rw [← isThen, ← isEnd] at made
  have waiting : ((evaluated.withBlock "if.then").withBlock "if.end").waiting =
      done :: onTrue :: start.waiting := made.waiting
  have toMade : Moves context outer start _ := (evaluates.trans makesThen).trans makesEnd
  apply Runs.bind (runs_close [done] start.waiting (toMade.settled ready.settled) ready.idle
    made.isOpen (by simp)
    (.branch value onTrue done isCondition (by simp [waiting]) (by simp [waiting])) made.underway)
  rintro _ inside closes ⟨entered, insideEq⟩
  have enters : Moves context outer evaluated inside := (makesThen.trans makesEnd).trans closes
  have toInside : Moves context outer start inside := evaluates.trans enters
  have readyInside := entered.ready ready.settled ready.idle ready.lead toInside (by simp)
  apply Runs.bind (performsBody.inBlock readyInside).part
  intro _ performed performs part
  have toPerformed : Moves context outer start performed := toInside.trans performs
  have underway := entered.toUnderway.after part.performed
  obtain ⟨finish, falls, after, holds⟩ : Runs context outer performed _ _ :=
    runs_fallThrough [] start.waiting (toPerformed.settled ready.settled) ready.idle
      (.jump done (.inl (by simp [underway.waiting]))) underway
  refine ⟨finish, falls, after, ?_⟩
  intro result succeeds
  obtain ⟨left, finishEq⟩ := holds result succeeds
  exact ⟨⟨value, onTrue, done, evaluated, inside, performed, evaluates, evaluatesTo, enters, insideEq,
    entered, readyInside, part, falls, finishEq, left⟩⟩

/-! ## Switches -/

/-- How the body of an arm has been lowered: in the block of the arm, from where control goes on
behind the switch. -/
structure ArmRun (context : Context) (outer : List Ir.BlockId) (done : Ir.BlockId)
    (body : List Statement) (block : Ir.BlockId) (start finish : Stage) where
  inside : Stage
  performed : Stage
  enters : Moves context outer start inside
  inside_eq : inside.state = { start.state with draft := start.draft.moveTo block }
  arrived : Arrived block inside
  ready : Ready outer inside
  part : Part context outer (Step.inBlock (Statement.lowerEach context body)) inside performed
  falls : Moves context outer performed finish
  finish_eq : finish.state = { performed.state with draft := performed.draft.fallThrough done }

/-- How the bodies of all arms have been lowered, one after the other. -/
inductive CasesRun (context : Context) (outer : List Ir.BlockId) (done : Ir.BlockId) :
    List Case → List Ir.BlockId → Stage → Stage → Prop where
  | nil (stage : Stage) : CasesRun context outer done [] [] stage stage
  | cons {value : Option Literal} {body : List Statement} {cases : List Case} {block : Ir.BlockId}
      {blocks : List Ir.BlockId} {start middle finish : Stage}
      (arm : ArmRun context outer done body block start middle)
      (rest : CasesRun context outer done cases blocks middle finish) :
      CasesRun context outer done (⟨value, body⟩ :: cases) (block :: blocks) start finish

/-- The bodies of a switch go to their blocks and all lead on to the block after the switch. -/
theorem runs_cases (cases : List Case) {done : Ir.BlockId} {blocks rest : List Ir.BlockId}
    (performs : ∀ case_ ∈ cases, Performs context outer (Statement.lowerEach context case_.body))
    (settled : start.Settled) (idle : start.pending = [])
    (lead : start.state.loops.Lead outer rest) (isClosed : start.draft.isClosed = true)
    (lengths : blocks.length = cases.length)
    (waiting : start.waiting = blocks.reverse ++ done :: rest) :
    Runs context outer start (Case.lowerEach context done cases blocks) fun _ finish =>
      CasesRun context outer done cases blocks start finish ∧
        finish.draft.isClosed = true ∧ Underway start start.pending (done :: rest) finish := by
  induction cases generalizing start blocks with
  | nil =>
      obtain rfl := List.length_eq_zero_iff.mp lengths
      rw [Case.lowerEach]
      · exact .pure ⟨.nil start, isClosed, rfl, .refl _, rfl, rfl, waiting⟩
      · rintro _ _ _ _ _ ⟨⟩
  | cons first cases ih =>
      obtain ⟨value, body⟩ := first
      obtain ⟨block, blocks, rfl⟩ := List.exists_cons_of_length_eq_add_one lengths
      obtain ⟨performsBody, performsRest⟩ := List.forall_mem_cons.mp performs
      rw [Case.lowerEach]
      have waitingEq : start.waiting = blocks.reverse ++ block :: done :: rest := by
        simpa using waiting
      let inside : Stage := { start.redraft (start.draft.moveTo block) with
        waiting := blocks.reverse ++ done :: rest }
      have entered : Entered start start.pending (blocks.reverse ++ done :: rest) block inside :=
        entered_moveTo blocks.reverse (done :: rest) settled ⟨rfl, .refl _, rfl, rfl, waitingEq⟩
      have enters : Runs context outer start (Step.modify fun draft => draft.moveTo block)
          fun _ finish => finish = inside :=
        .of_move (.moveTo block blocks.reverse (done :: rest) isClosed waitingEq) rfl rfl
      apply Runs.bind enters
      rintro _ _ toInside rfl
      have ready := entered.ready settled idle lead toInside (by simp)
      apply Runs.bind (performsBody.inBlock ready).part
      intro _ performed bodyMoves part
      have toPerformed : Moves context outer start performed := toInside.trans bodyMoves
      have underway := entered.toUnderway.after part.performed
      have exits : Exits outer performed (.jump done) :=
        .jump done (.inl (by simp [underway.waiting]))
      obtain ⟨falls, leftClosed⟩ := moves_fallThrough context
        (toPerformed.settled settled) (underway.pending.trans idle) exits
      let left : Stage := performed.redraft (performed.draft.fallThrough done)
      let arm : ArmRun context outer done body block start left :=
        ⟨inside, performed, toInside, rfl, entered.toArrived, ready, part, falls, rfl⟩
      have leaves : Runs context outer performed (Step.modify fun draft => draft.fallThrough done)
          fun _ finish => finish = left :=
        .of_moves falls rfl rfl
      apply Runs.bind leaves
      rintro _ _ toLeft rfl
      have toLeft : Moves context outer start left := toPerformed.trans toLeft
      have underwayLeft : Underway start start.pending (blocks.reverse ++ done :: rest) left :=
        ⟨underway.loops, underway.scope, underway.announced, underway.pending, underway.waiting⟩
      have stillLead : left.state.loops.Lead outer rest := by
        rw [underwayLeft.loops]
        exact lead
      apply (ih performsRest (toLeft.settled settled) (underwayLeft.pending.trans idle) stillLead
        leftClosed (Nat.succ.inj lengths) underwayLeft.waiting).mono
      rintro _ finish ⟨others, closed, last⟩
      exact ⟨.cons arm others, closed, underwayLeft.trans last⟩

/-- How a switch has been lowered: the scrutinee, the blocks of the arms, the bodies in these, and the
block where control goes on. -/
structure SwitchRun (context : Context) (outer : List Ir.BlockId) (scrutinee : Expression)
    (cases : List Case) (start finish : Stage) where
  value : Ir.Value
  done : Ir.BlockId
  blocks : SwitchBlocks
  evaluated : Stage
  made : Stage
  closed : Stage
  performed : Stage
  begins : Moves context outer start evaluated
  evaluates : (scrutinee.lower context).after start.state = (.ok value, evaluated.state)
  makes : Moves context outer evaluated made
  made_eq : (newArms value cases).after (evaluated.withBlock "switch.end").state =
    (.ok blocks, made.state)
  arms : Arms value cases blocks
  present : ∀ block ∈ done :: blocks.arms, (made.draft.function.block? block).isSome
  closes : Moves context outer made closed
  closed_eq : closed.state = { made.state with
    draft := made.draft.close (.switch value blocks.constants (blocks.default.getD done)) }
  scope : closed.state.scope = start.state.scope
  loops : closed.state.loops = start.state.loops
  cases : CasesRun context outer done cases blocks.arms closed performed
  performs : Moves context outer closed performed
  leaves : Moves context outer performed finish
  finish_eq : finish.state = { performed.state with draft := performed.draft.moveTo done }
  left : Entered start start.pending start.waiting done finish

theorem runs_switch (scrutinee : Expression) (cases : List Case)
    (performsCases : ∀ case_ ∈ cases,
      Performs context outer (Statement.lowerEach context case_.body))
    (ready : Ready outer start) (isOpen : start.draft.IsOpen) :
    Runs context outer start ((Statement.switch scrutinee cases).lower context)
      fun _ finish => Nonempty (SwitchRun context outer scrutinee cases start finish) := by
  rw [Statement.lower]
  apply Runs.bind (runs_lower scrutinee isOpen).recorded
  rintro value evaluated evaluates ⟨begun, evaluatesTo⟩
  apply Runs.bind (runs_newBlock "switch.end")
  rintro done _ makesEnd ⟨isEnd, rfl⟩
  have withEnd := begun.withBlock "switch.end"
  rw [← isEnd] at withEnd
  apply Runs.bind (runs_newArms value cases withEnd).recorded
  rintro blocks made makesArms ⟨⟨arms, begunArms⟩, madeEq⟩
  have makes := makesEnd.trans makesArms
  have toMade : Moves context outer start made := evaluates.trans makes
  have waiting : made.waiting = blocks.arms.reverse ++ done :: start.waiting := by
    simp [begunArms.waiting]
  have waits {block : Ir.BlockId} (isArm : block ∈ blocks.arms) : block ∈ made.waiting := by
    simp [waiting, isArm]
  have present : ∀ block ∈ done :: blocks.arms, (made.draft.function.block? block).isSome := by
    intro block member
    obtain ⟨-, -, label, fresh⟩ := (toMade.settled ready.settled).fresh block (by
      rw [waiting]
      rcases List.mem_cons.mp member with rfl | isArm
      · simp
      · simp [isArm])
    rw [fresh]
    rfl
  let exit : Ir.Terminator := .switch value blocks.constants (blocks.default.getD done)
  have exits : Exits outer made exit := by
    refine .switch _ _ _ (fun arm isArm => (arms.constants arm isArm).1)
      (fun arm isArm => waits (arms.constants arm isArm).2) ?_
    cases isDefault : blocks.default with
    | none => simp [waiting]
    | some block => exact waits (arms.default block isDefault)
  let closed : Stage := { made.redraft (made.draft.close exit) with pending := [] }
  have used : made.pending = exit.operands.reverse := by
    rw [begunArms.pending, ready.idle]
    rfl
  have closes : Runs context outer made (Step.modify fun draft => draft.close exit)
      fun _ finish => finish = closed :=
    .of_move (.close exit begunArms.isOpen used exits) rfl rfl
  apply Runs.bind closes
  rintro _ _ closes rfl
  have underway : Underway start start.pending (blocks.arms.reverse ++ done :: start.waiting)
      closed :=
    ⟨begunArms.loops, begunArms.underway.scope, begunArms.announced, ready.idle.symm, waiting⟩
  have toClosed : Moves context outer start closed := toMade.trans closes
  have lead : closed.state.loops.Lead outer start.waiting := by
    rw [underway.loops]
    exact ready.lead
  apply Runs.bind (runs_cases cases performsCases (toClosed.settled ready.settled) rfl lead
    (Ir.Draft.isClosed_close begunArms.isOpen (by simp)) arms.length waiting)
  rintro _ performed performs ⟨run, isClosed, last⟩
  have whole := underway.trans last
  have toPerformed : Moves context outer start performed := toClosed.trans performs
  let finish : Stage := { performed.redraft (performed.draft.moveTo done) with
    waiting := start.waiting }
  have leaves : Move context outer performed finish :=
    .moveTo done [] start.waiting isClosed last.waiting
  have left : Entered start start.pending start.waiting done finish :=
    entered_moveTo [] start.waiting (toPerformed.settled ready.settled) whole
  exact .of_move leaves rfl ⟨⟨value, done, blocks, evaluated, made, closed, performed, evaluates, evaluatesTo,
    makes, madeEq, arms, present, closes, rfl, begunArms.scope, begunArms.loops, run, performs,
    .single leaves, rfl, left⟩⟩

/-! ## Loops -/

/-- The blocks of a loop, once the statements in front of it have been lowered. -/
theorem runs_loopBlocks {α : Type} {next : Ir.BlockId → Ir.BlockId → Ir.BlockId → Ir.BlockId → Step α}
    {post : α → Stage → Prop}
    (goesOn : ∀ {head body step done stage}, Moves context outer start stage →
      stage.state = { start.state with
        draft := ((((start.draft.newBlock "for.cond").2.newBlock "for.body").2.newBlock
          "for.post").2.newBlock "for.exit").2 } →
      Underway start start.pending (done :: step :: body :: head :: start.waiting) stage →
      Runs context outer stage (next head body step done) post) :
    Runs context outer start (withLoopBlocks next) post := by
  rw [withLoopBlocks]
  apply Runs.bind (runs_newBlock "for.cond")
  rintro head _ makesHead ⟨isHead, rfl⟩
  apply Runs.bind (runs_newBlock "for.body")
  rintro body _ makesBody ⟨isBody, rfl⟩
  apply Runs.bind (runs_newBlock "for.post")
  rintro step _ makesStep ⟨isStep, rfl⟩
  apply Runs.bind (runs_newBlock "for.exit")
  rintro done _ makesDone ⟨isDone, rfl⟩
  apply goesOn (((makesHead.trans makesBody).trans makesStep).trans makesDone) rfl
  rw [isHead, isBody, isStep, isDone]
  exact ((((Underway.refl start).withBlock _).withBlock _).withBlock _).withBlock _

/-- How the rounds of a loop have been lowered: the condition at the head, the body, the step, and the
edge back to the head. -/
structure RoundsRun (context : Context) (outer rest : List Ir.BlockId) (condition : Expression)
    (advance body : List Statement) (head step done : Ir.BlockId) (start finish : Stage) where
  value : Ir.Value
  bodyBlock : Ir.BlockId
  atHead : Stage
  evaluated : Stage
  inside : Stage
  afterBody : Stage
  atStep : Stage
  afterStep : Stage
  falls : Moves context outer start atHead
  head_eq : atHead.state = { start.state with draft := (start.draft.fallThrough head).moveTo head }
  arrived : Arrived head atHead
  begins : Moves context outer atHead evaluated
  evaluates : (condition.lowerToCondition context).after atHead.state = (.ok value, evaluated.state)
  enters : Moves context outer evaluated inside
  inside_eq : inside.state = { evaluated.state with
    draft := (evaluated.draft.close (.branch value bodyBlock done)).moveTo bodyBlock }
  entered : Arrived bodyBlock inside
  ready : Ready outer (inside.inLoop ⟨done, step⟩)
  part : Part context outer
    (Step.inLoop ⟨done, step⟩ (Step.inBlock (Statement.lowerEach context body))) inside afterBody
  continues : Moves context outer afterBody atStep
  step_eq : atStep.state = { afterBody.state with
    draft := (afterBody.draft.fallThrough step).moveTo step }
  arrivedStep : Arrived step atStep
  readyStep : Ready outer atStep
  partStep : Part context outer (Step.inBlock (Statement.lowerEach context advance)) atStep afterStep
  returns : Moves context outer afterStep finish
  finish_eq : finish.state = { afterStep.state with
    draft := (afterStep.draft.fallThrough head).moveTo done }
  left : Entered start start.pending rest done finish

theorem runs_rounds {head body step done : Ir.BlockId} {rest : List Ir.BlockId}
    (condition : Expression) (advance inside : List Statement)
    (performsStep : Performs context outer (Statement.lowerEach context advance))
    (performsBody : Performs context outer (Statement.lowerEach context inside))
    (settled : start.Settled) (idle : start.pending = [])
    (lead : start.state.loops.Lead outer rest)
    (waiting : start.waiting = done :: step :: body :: head :: rest) :
    Runs context outer start
      (loopRounds head body step done (condition.lowerToCondition context)
        (Statement.lowerEach context inside) (Statement.lowerEach context advance))
      fun _ finish => Nonempty
        (RoundsRun context outer rest condition advance inside head step done start finish) := by
  rw [loopRounds]
  have atStart : Underway start start.pending (done :: step :: body :: head :: rest) start :=
    ⟨rfl, .refl _, rfl, rfl, waiting⟩
  apply Runs.bind (runs_fallThrough [done, step, body] rest settled idle
    (.jump head (.inl (by simp [waiting]))) atStart)
  rintro _ atHead toHead ⟨entered, headEq⟩
  have outside : head ≠ start.draft.function.entry :=
    (settled.fresh head (by simp [waiting])).2.1
  apply Runs.bind (runs_lowerToCondition condition entered.isOpen).recorded
  rintro value evaluated evaluates ⟨⟨begun, isCondition⟩, evaluatesTo⟩
  have toEvaluated : Moves context outer start evaluated := toHead.trans evaluates
  have underway := entered.toUnderway.begun begun
  have waits : evaluated.waiting = done :: step :: body :: rest := underway.waiting
  apply Runs.bind (runs_close [done, step] rest (toEvaluated.settled settled) idle
    begun.isOpen (by simp)
    (.branch value body done isCondition (by simp [waits]) (by simp [waits])) underway)
  rintro _ atBody entersBody ⟨enteredBody, bodyEq⟩
  have toBody : Moves context outer start atBody := toEvaluated.trans entersBody
  -- The head has been closed for good: this is what lets the back edge lead on to `done`.
  obtain ⟨headBlock, foundHead, headClosed, headLeads⟩ :
      ∃ block, atBody.draft.function.block? head = some block ∧ block.isClosed = true ∧
        done ∈ block.successors := by
    obtain ⟨block, found, -⟩ := begun.isOpen
    have isHead : evaluated.draft.cursor = head := begun.cursor.trans entered.cursor
    refine ⟨block.close (.branch value body done), ?_, rfl, ?_⟩
    · rw [Stage.draft, bodyEq]
      show (evaluated.draft.close _).function.block? head = _
      rw [Ir.Draft.block?_close, if_pos isHead, ← isHead, found]
      rfl
    · simp [Ir.BasicBlock.successors, Ir.BasicBlock.close, Ir.Terminator.successors]
  have readyBody : Ready outer (atBody.inLoop ⟨done, step⟩) := by
    apply (enteredBody.ready settled idle lead toBody (by simp)).inLoop
    intro exit
    cases exit <;> simp [LoopFrame.target, enteredBody.waiting]
  apply Runs.bind (performsBody.inBlock.inLoop readyBody).part
  intro _ afterBody bodyMoves part
  have toAfterBody : Moves context outer start afterBody := toBody.trans bodyMoves
  have underwayBody := enteredBody.toUnderway.after part.performed
  apply Runs.bind (runs_fallThrough [done] rest (toAfterBody.settled settled) idle
    (.jump step (.inl (by simp [underwayBody.waiting]))) underwayBody)
  rintro _ atStep entersStep ⟨enteredStep, stepEq⟩
  have toStep : Moves context outer start atStep := toAfterBody.trans entersStep
  have readyStep := enteredStep.ready settled idle lead toStep (by simp)
  apply Runs.bind (performsStep.inBlock readyStep).part
  intro _ afterStep stepMoves partStep
  have sinceBody : Moves context outer atBody afterStep :=
    (bodyMoves.trans entersStep).trans stepMoves
  have toAfterStep : Moves context outer start afterStep := toStep.trans stepMoves
  have underwayStep := enteredStep.toUnderway.after partStep.performed
  obtain ⟨later, foundLater, sameTerminator, -⟩ := sinceBody.grows.closed foundHead headClosed
  have leadsOn : Exits outer afterStep (.jump head) := by
    refine .back head done later foundLater ?_ ?_ (by simp [underwayStep.waiting])
    · rw [toAfterStep.grows.entry]
      exact outside
    · rw [Ir.BasicBlock.successors, sameTerminator]
      exact headLeads
  obtain ⟨finish, returns, after, holds⟩ : Runs context outer afterStep _ _ :=
    runs_fallThrough [] rest (toAfterStep.settled settled) idle leadsOn underwayStep
  refine ⟨finish, returns, after, ?_⟩
  intro result succeeds
  obtain ⟨left, finishEq⟩ := holds result succeeds
  exact ⟨⟨value, body, atHead, evaluated, atBody, afterBody, atStep, afterStep, toHead, headEq,
    entered.toArrived, evaluates, evaluatesTo, entersBody, bodyEq, enteredBody.toArrived, readyBody, part,
    entersStep, stepEq, enteredStep.toArrived, readyStep, partStep, returns, finishEq, left⟩⟩

/-- How a loop has been lowered, in a block of its own: the statements in front of it, and its
rounds. -/
structure LoopRun (context : Context) (outer : List Ir.BlockId) (init : List Statement)
    (condition : Expression) (advance body : List Statement) (start finish : Stage) where
  initBlock : Ir.BlockId
  head : Ir.BlockId
  step : Ir.BlockId
  done : Ir.BlockId
  inside : Stage
  afterInit : Stage
  made : Stage
  last : Stage
  enters : Moves context outer start inside
  inside_eq : inside.state = { start.state with
    draft := ((start.draft.newBlock "for.init").2.jump initBlock).moveTo initBlock }
  arrived : Arrived initBlock inside
  ready : Ready outer inside.inBlock
  part : Part context outer (Statement.lowerEach context init) inside.inBlock afterInit
  makes : Moves context outer afterInit made
  made_eq : made.state = { afterInit.state with
    draft := ((((afterInit.draft.newBlock "for.cond").2.newBlock "for.body").2.newBlock
      "for.post").2.newBlock "for.exit").2 }
  rounds : RoundsRun context outer start.waiting condition advance body head step done made last
  finish_eq : finish.state = { last.state with scope := last.state.scope.leave }
  rested : Performed start finish

theorem runs_loop (init : List Statement) (condition : Expression) (step body : List Statement)
    (performsInit : Performs context outer (Statement.lowerEach context init))
    (performsStep : Performs context outer (Statement.lowerEach context step))
    (performsBody : Performs context outer (Statement.lowerEach context body))
    (ready : Ready outer start) (isOpen : start.draft.IsOpen) :
    Runs context outer start ((Statement.loop init condition step body).lower context)
      fun _ finish => Nonempty (LoopRun context outer init condition step body start finish) := by
  rw [Statement.lower_loop]
  apply Runs.bind (runs_newBlock "for.init")
  rintro initBlock _ makesInit ⟨isInit, rfl⟩
  have begun := (Begun.nil isOpen).withBlock "for.init"
  rw [← isInit] at begun
  have waiting : (start.withBlock "for.init").waiting = initBlock :: start.waiting := begun.waiting
  apply Runs.bind (runs_close [] start.waiting (makesInit.settled ready.settled) ready.idle
    begun.isOpen (by simp)
    (.jump initBlock (.inl (by simp [waiting]))) begun.underway)
  rintro _ inside closes ⟨entered, insideEq⟩
  have toInside : Moves context outer start inside := makesInit.trans closes
  have readyInside := entered.ready ready.settled ready.idle ready.lead toInside (by simp)
  apply Runs.inBlock
  apply Runs.bind (performsInit readyInside.inBlock).part
  intro _ afterInit initMoves part
  have waitingInit : afterInit.waiting = start.waiting :=
    part.performed.waiting.trans entered.waiting
  apply runs_loopBlocks
  intro head bodyBlock stepBlock done made makes madeEq madeUnderway
  have toMade : Moves context outer inside.inBlock made := initMoves.trans makes
  have underway : Underway inside.inBlock inside.inBlock.pending
      (done :: stepBlock :: bodyBlock :: head :: start.waiting) made := by
    rw [← waitingInit]
    exact part.performed.trans madeUnderway
  have loops : inside.inBlock.state.loops = start.state.loops := entered.loops
  have lead : made.state.loops.Lead outer start.waiting := by
    rw [underway.loops, loops]
    exact ready.lead
  apply (runs_rounds condition step body performsStep performsBody
    (toMade.settled readyInside.inBlock.settled) (underway.pending.trans readyInside.idle) lead
    underway.waiting).mono
  rintro _ last ⟨rounds⟩
  have whole : Underway inside.inBlock inside.inBlock.pending start.waiting last :=
    underway.trans rounds.left.toUnderway
  have left : start.state.scope.Extends last.state.scope.leave := by
    rw [whole.scope.leave_eq]
    exact entered.scope
  have rested : Performed start { last with
      state := { last.state with scope := last.state.scope.leave } } :=
    ⟨whole.loops.trans entered.loops, left, whole.announced.trans entered.announced,
      whole.pending.trans entered.pending, whole.waiting⟩
  exact ⟨⟨initBlock, head, stepBlock, done, inside, afterInit, made, last, toInside, insideEq,
    entered.toArrived, readyInside.inBlock, part, makes, madeEq, rounds, rfl, rested⟩⟩

mutual

/-- Every statement makes moves and leaves nothing behind that it has begun. -/
theorem runs_statement : (statement : Statement) → ∀ {start}, Ready outer start →
    start.draft.IsOpen →
    Runs context outer start (statement.lower context) fun _ finish => Performed start finish
  | .block body, start, ready, isOpen => by
      rw [Statement.lower]
      exact Performs.inBlock (performs_statements body) ready
  | .declaration declared initialiser, start, ready, isOpen => by
      rw [Statement.lower]
      apply Runs.bind (runs_declareAll declared isOpen)
      rintro targets stage _ ⟨performed, stillOpen, scope⟩
      cases initialiser with
      | none => exact .pure performed
      | some value =>
          apply (runs_assign targets value stillOpen ?_).mono
          · intro _ finish assigned
            exact performed.after assigned
          · intro target isTarget
            rw [← scope]
            exact List.mem_append_right _ isTarget
  | .assignment names value, start, ready, isOpen => by
      rw [Statement.lower]
      apply Runs.bind (runs_lookups names)
      rintro targets _ _ ⟨rfl, means⟩
      exact runs_assign targets value isOpen means.mem
  | .expression expression, start, ready, isOpen => by
      rw [Statement.lower]
      exact runs_perform expression isOpen
  | .conditional condition body, start, ready, isOpen => by
      apply (runs_conditional condition body (performs_statements body) ready isOpen).mono
      rintro _ finish ⟨run⟩
      exact run.left.toUnderway
  | .switch scrutinee cases, start, ready, isOpen => by
      apply (runs_switch scrutinee cases (performs_cases cases) ready isOpen).mono
      rintro _ finish ⟨run⟩
      exact run.left.toUnderway
  | .loop init condition step body, start, ready, isOpen => by
      apply (runs_loop init condition step body (performs_statements init)
        (performs_statements step) (performs_statements body) ready isOpen).mono
      rintro _ finish ⟨run⟩
      exact run.rested
  | .breakLoop, start, ready, isOpen => by
      rw [Statement.lower]
      exact runs_leaveIteration .breakLoop ready isOpen
  | .continueLoop, start, ready, isOpen => by
      rw [Statement.lower]
      exact runs_leaveIteration .continueLoop ready isOpen
  | .definition name _ _ _, start, ready, isOpen => by
      rw [Statement.lower]
      exact .throw _
  | .label _, start, ready, isOpen => by
      rw [Statement.lower]
      exact .throw _
  | .stackAssignment _, start, ready, isOpen => by
      rw [Statement.lower]
      exact .throw _

theorem performs_statements : (statements : List Statement) →
    Performs context outer (Statement.lowerEach context statements)
  | [] => by
      intro start ready
      rw [Statement.lowerEach]
      exact .pure (.refl start)
  | statement :: rest => by
      intro start ready
      rw [Statement.lowerEach]
      apply Runs.bind (runs_openBlock ready.settled)
      rintro _ opened moves ⟨performed, isOpen, -⟩
      apply Runs.bind (runs_statement statement
        (performed.ready ready.settled ready.idle ready.lead moves (List.Subset.refl _)) isOpen)
      intro _ stage more first
      have performed := performed.after first
      have moves : Moves context outer start stage := moves.trans more
      apply (performs_statements rest
        (performed.ready ready.settled ready.idle ready.lead moves (List.Subset.refl _))).mono
      intro _ finish others
      exact performed.after others

theorem performs_cases : (cases : List Case) → ∀ case_ ∈ cases,
    Performs context outer (Statement.lowerEach context case_.body)
  | [], case_, member => by cases member
  | ⟨_, body⟩ :: rest, case_, member => by
      rcases List.mem_cons.mp member with rfl | member
      · exact performs_statements body
      · exact performs_cases rest case_ member

end

end YulLowering.Lowering
