import YulLowering.Proofs.Loops
import YulLowering.Proofs.Reachability.Places

/-!
# Statements connect the blocks that they make

A statement only makes edges to blocks that control is meant to come to. If nothing in it cuts off what
comes after, it also connects all blocks that it makes, so that control can reach them once it can reach the
statement. Blocks around the statement that are still to be connected do not matter to it.
-/

namespace YulLowering

/-! ## What cuts off code -/

/-- The number of default arms of a switch. -/
def Case.defaultCount (cases : List Case) : Nat :=
  cases.countP fun case_ => case_.value.isNone

mutual

/-- Whether a statement holds a loop exit or a switch with several default arms. -/
def Statement.cutsOff : Statement → Bool
  | .block body => Statement.anyCutsOff body
  | .conditional _ body => Statement.anyCutsOff body
  | .switch _ cases => decide (1 < Case.defaultCount cases) || Case.anyCutsOff cases
  | .loop init _ step body =>
    Statement.anyCutsOff init || Statement.anyCutsOff step || Statement.anyCutsOff body
  | .breakLoop | .continueLoop => true
  | .declaration _ _ | .assignment _ _ | .expression _ | .definition _ _ _ _ | .label _
  | .stackAssignment _ => false

/-- Whether one of several statements holds a loop exit or a switch with several default arms. -/
def Statement.anyCutsOff : List Statement → Bool
  | [] => false
  | statement :: rest => statement.cutsOff || Statement.anyCutsOff rest

/-- Whether the body of an arm holds a loop exit or a switch with several default arms. -/
def Case.anyCutsOff : List Case → Bool
  | [] => false
  | ⟨_, body⟩ :: rest => Statement.anyCutsOff body || Case.anyCutsOff rest

end

namespace Lowering

variable {context : Context} {state later : State} {waiting pending : List Ir.BlockId} {cut : Bool}

/-! ## Blocks that are made and entered -/

/-- A block has been made that control is meant to come to. -/
structure State.Makes (block : Ir.BlockId) (state later : State) : Prop where
  guided : ∀ {waiting}, state.Guided waiting → later.Guided (block :: waiting)
  isOpen : state.draft.IsOpen → later.draft.IsOpen
  connects : ∀ {pending}, state.draft.Connected pending → later.draft.Connected (block :: pending)

theorem makes_newBlock {label : String} (meant : label ≠ "unreachable") :
    (newBlock label).Yields state fun block later => state.Makes block later :=
  .write ⟨fun guided => guided.newBlock meant, fun isOpen => Ir.Draft.isOpen_newBlock isOpen label,
    fun connected => connected.newBlock label⟩

/-- The block under the cursor is closed, and control goes on at a block that waits. -/
theorem State.Guided.enter (before after : List Ir.BlockId) {block : Ir.BlockId}
    (guided : state.Guided (before ++ block :: after)) (isOpen : state.draft.IsOpen)
    (terminator : Ir.Terminator)
    (waits : ∀ target ∈ terminator.successors, target ∈ before ++ block :: after) :
    ({ state with draft := (state.draft.close terminator).moveTo block } : State).Guided
      (before ++ after) :=
  (guided.close isOpen fun target leads => guided.meant target (waits target leads)).moveTo

theorem State.Guided.goOn (before after : List Ir.BlockId) {target block : Ir.BlockId}
    (guided : state.Guided (before ++ block :: after)) (meant : state.draft.function.Intended target) :
    ({ state with draft := (state.draft.fallThrough target).moveTo block } : State).Guided
      (before ++ after) :=
  (guided.fallThrough meant).moveTo

/-- The blocks that the terminator leads to are connected. -/
theorem State.Guided.connected_enter {rest : List Ir.BlockId} {block : Ir.BlockId}
    (guided : state.Guided waiting) (waits : block ∈ waiting)
    (connected : state.draft.Connected pending) (terminator : Ir.Terminator)
    (leads : (state.draft.close terminator).function.Leads state.draft.function.entry block)
    (within : ∀ id ∈ pending, id ∈ terminator.successors ∨ id ∈ rest) :
    ((state.draft.close terminator).moveTo block).Connected rest :=
  (connected.spans_close within).moveTo
    ((guided.settled.close connected.isOpen terminator).exit?_of_mem waits) leads

/-- Control falls through to a block and goes on there. -/
theorem State.Guided.connected_goOn {rest : List Ir.BlockId} {target block : Ir.BlockId}
    (guided : state.Guided waiting) (waits : block ∈ waiting)
    (connected : state.draft.Connected pending)
    (leads : block = target ∨ state.draft.function.Leads state.draft.function.entry block)
    (within : ∀ id ∈ pending, id = target ∨ id ∈ rest) :
    ((state.draft.fallThrough target).moveTo block).Connected rest := by
  rw [connected.fallThrough_eq]
  apply guided.connected_enter waits connected
  · rcases leads with rfl | leads
    · exact connected.leads_close (List.mem_singleton_self block)
    · exact (Ir.Draft.grows_close connected.isOpen _).leads leads
  · intro id isPending
    exact (within id isPending).imp_left List.mem_singleton.mpr

/-- The next statement is put where control can go on, which is a block of its own if control cannot. -/
theorem State.Guided.openBlock (guided : state.Guided []) :
    openBlock.Yields state fun _ later => later.Guided [] ∧ later.draft.IsOpen ∧
      ∀ pending, state.draft.Connected pending → later.draft.Connected pending := by
  apply Step.Yields.inspect_bind
  cases isClosed : state.draft.isClosed with
  | false => exact .pure ⟨guided, guided.isOpen isClosed, fun _ => id⟩
  | true =>
      apply Step.Yields.write_bind
      apply Step.Yields.modify
      have made : (state.draft.newBlock "unreachable").2.Settled
          ([] ++ state.draft.nextBlock :: []) := guided.settled.newBlock "unreachable"
      refine ⟨⟨made.moveTo, Ir.Draft.directed_newBlock guided.directed _, fun frame enclosing exit =>
        Ir.Draft.intended_newBlock (guided.loops frame enclosing exit) _, fun _ waits => nomatch waits⟩,
        ?_, ?_⟩
      · exact ⟨_, (Ir.Draft.block?_newBlock ..).trans (if_pos rfl), rfl⟩
      · intro pending connected
        rw [connected.isOpen.isClosed] at isClosed
        cases isClosed

/-! ## Conditionals -/

theorem guides_conditional (condition : Expression) (body : List Statement)
    (guidesBody : (Statement.lowerEach context body).Guides cut) (guided : state.Guided [])
    (isOpen : state.draft.IsOpen) :
    ((Statement.conditional condition body).lower context).Yields state fun _ later =>
      state.Guides cut later := by
  rw [Statement.lower]
  have evaluates : (condition.lowerToCondition context).Respects State.SameFlow :=
    StraightLine.respects_lowerToCondition condition
  apply Step.Yields.bind (evaluates.yields state)
  intro value evaluated same
  apply Step.Yields.bind (makes_newBlock (by decide))
  intro onTrue withThen makesThen
  apply Step.Yields.bind (makes_newBlock (by decide))
  intro done made makesEnd
  have guidedMade : made.Guided [done, onTrue] :=
    makesEnd.guided (makesThen.guided (guided.same isOpen same))
  have madeOpen := makesEnd.isOpen (makesThen.isOpen (same.isOpen isOpen))
  apply Step.Yields.modify_bind
  have inside := guidedMade.enter [done] [] madeOpen (.branch value onTrue done)
    (by simp [Ir.Terminator.successors])
  apply Step.Yields.bind (guidesBody.inBlock inside)
  rintro _ performed ⟨passed, guides, after⟩
  apply Step.Yields.modify
  have meant := after.meant done List.mem_cons_self
  refine ⟨Ir.Draft.directed_fallThrough after.directed meant, ?_⟩
  intro uncut pending connected
  have connectedMade := makesEnd.connects (makesThen.connects (same.connected connected))
  have leads {block : Ir.BlockId} (isTarget : block ∈ [onTrue, done]) :
      (made.draft.close (.branch value onTrue done)).function.Leads made.draft.function.entry block :=
    connectedMade.leads_close isTarget
  have within : ∀ id ∈ done :: onTrue :: pending, id ∈ [onTrue, done] ∨ id ∈ pending := by
    simp only [List.mem_cons]
    tauto
  have connectedInside := guidedMade.connected_enter (by simp) connectedMade
    (.branch value onTrue done) (leads List.mem_cons_self) within
  apply after.connected_goOn List.mem_cons_self (guides.connects uncut pending connectedInside)
  · exact .inl rfl
  · exact fun _ => .inr

/-! ## Switches -/

/-- Blocks have been made for the arms of a switch. -/
structure State.MakesArms (cases : List Case) (blocks : SwitchBlocks) (state later : State) : Prop where
  guided : ∀ {waiting}, state.Guided waiting → later.Guided (blocks.arms.reverse ++ waiting)
  isOpen : state.draft.IsOpen → later.draft.IsOpen
  connects : ∀ {pending}, state.draft.Connected pending →
    later.draft.Connected (blocks.arms.reverse ++ pending)
  length : blocks.arms.length = cases.length
  constants : ∀ arm ∈ blocks.constants, arm.2 ∈ blocks.arms
  default : ∀ block ∈ blocks.default, block ∈ blocks.arms
  isNone : Case.defaultCount cases = 0 → blocks.default = none
  /-- If there is one default arm at most, control may go to each arm. -/
  covers : Case.defaultCount cases ≤ 1 → ∀ arm ∈ blocks.arms,
    arm ∈ blocks.constants.map Prod.snd ∨ blocks.default = some arm

theorem State.MakesArms.nil (state : State) : State.MakesArms [] ⟨[], [], none⟩ state state where
  guided guided := guided
  isOpen isOpen := isOpen
  connects connected := connected
  length := rfl
  constants _ isArm := nomatch isArm
  default _ isDefault := nomatch isDefault
  isNone _ := rfl
  covers _ _ isArm := nomatch isArm

theorem State.MakesArms.consCase {cases : List Case} {blocks : SwitchBlocks} {middle : State}
    {block : Ir.BlockId} (makes : state.Makes block middle)
    (others : State.MakesArms cases blocks middle later) (literal : Literal) (body : List Statement)
    (constant : Nat) :
    State.MakesArms (⟨some literal, body⟩ :: cases) { blocks with
      arms := block :: blocks.arms, constants := (constant, block) :: blocks.constants } state
        later where
  guided guided := by simpa using others.guided (makes.guided guided)
  isOpen := others.isOpen ∘ makes.isOpen
  connects connected := by simpa using others.connects (makes.connects connected)
  length := congrArg (· + 1) others.length
  constants := List.forall_mem_cons.mpr ⟨List.mem_cons_self, fun arm isArm =>
    List.mem_cons_of_mem _ (others.constants arm isArm)⟩
  default other isDefault := List.mem_cons_of_mem _ (others.default other isDefault)
  isNone few := others.isNone (by simpa [Case.defaultCount] using few)
  covers few := by
    have fewOthers : Case.defaultCount cases ≤ 1 := by simpa [Case.defaultCount] using few
    refine List.forall_mem_cons.mpr ⟨.inl List.mem_cons_self, ?_⟩
    intro arm isArm
    exact (others.covers fewOthers arm isArm).imp_left (List.mem_cons_of_mem _)

theorem State.MakesArms.consDefault {cases : List Case} {blocks : SwitchBlocks} {middle : State}
    {block : Ir.BlockId} (makes : state.Makes block middle)
    (others : State.MakesArms cases blocks middle later) (body : List Statement) :
    State.MakesArms (⟨none, body⟩ :: cases) { blocks with
      arms := block :: blocks.arms, default := some (blocks.default.getD block) } state later where
  guided guided := by simpa using others.guided (makes.guided guided)
  isOpen := others.isOpen ∘ makes.isOpen
  connects connected := by simpa using others.connects (makes.connects connected)
  length := congrArg (· + 1) others.length
  constants arm isArm := List.mem_cons_of_mem _ (others.constants arm isArm)
  default := by
    rintro _ ⟨⟩
    cases last : blocks.default with
    | none => exact List.mem_cons_self
    | some other => exact List.mem_cons_of_mem _ (others.default other last)
  isNone few := by simp [Case.defaultCount] at few
  covers few := by
    have noOther : Case.defaultCount cases = 0 := by simpa [Case.defaultCount] using few
    have isNone := others.isNone noOther
    refine List.forall_mem_cons.mpr ⟨.inr (by simp [isNone]), ?_⟩
    intro arm isArm
    refine .inl ((others.covers (by omega) arm isArm).resolve_right ?_)
    simp [isNone]

/-- A switch only goes to arms, or behind itself. -/
theorem State.MakesArms.waits {cases : List Case} {blocks : SwitchBlocks}
    (makes : State.MakesArms cases blocks state later) (scrutinee : Ir.Value) (done : Ir.BlockId)
    {target : Ir.BlockId} (isTarget : target ∈ (Ir.Terminator.switch scrutinee blocks.constants
      (blocks.default.getD done)).successors) : target ∈ blocks.arms.reverse ++ [done] := by
  rcases List.mem_append.mp isTarget with isConstant | isDefault
  · obtain ⟨arm, member, rfl⟩ := List.mem_map.mp isConstant
    simp [makes.constants arm member]
  · rw [List.mem_singleton.mp isDefault]
    cases last : blocks.default with
    | none => simp
    | some block => simp [makes.default block last]

theorem State.MakesArms.isTarget {cases : List Case} {blocks : SwitchBlocks}
    (makes : State.MakesArms cases blocks state later) (scrutinee : Ir.Value) (done : Ir.BlockId)
    (few : Case.defaultCount cases ≤ 1) {arm : Ir.BlockId} (isArm : arm ∈ blocks.arms) :
    arm ∈ (Ir.Terminator.switch scrutinee blocks.constants (blocks.default.getD done)).successors := by
  rcases makes.covers few arm isArm with isConstant | isDefault
  · exact List.mem_append_left _ isConstant
  · simp [Ir.Terminator.successors, isDefault]

theorem makes_newArms (scrutinee : Ir.Value) (cases : List Case) (state : State) :
    (newArms scrutinee cases).Yields state fun blocks later =>
      State.MakesArms cases blocks state later := by
  induction cases generalizing state with
  | nil => exact .pure (.nil state)
  | cons first rest ih =>
      obtain ⟨value, body⟩ := first
      cases value with
      | some literal =>
          apply Step.Yields.bind (makes_newBlock (by decide))
          intro block middle makes
          apply Step.Yields.ofExcept_bind
          intro constant _
          apply Step.Yields.bind (ih middle)
          intro blocks later others
          exact .pure (.consCase makes others literal body constant)
      | none =>
          apply Step.Yields.bind (makes_newBlock (by decide))
          intro block middle makes
          apply Step.Yields.bind (ih middle)
          intro blocks later others
          exact .pure (.consDefault makes others body)

/-- What is the case after the bodies of a switch. Each of them connects the block behind the switch. -/
structure State.GuidesArms (cut : Bool) (done : Ir.BlockId) (blocks : List Ir.BlockId)
    (state later : State) : Prop where
  guided : later.Guided [done]
  grows : state.draft.function.Grows later.draft.function
  connects : cut = false → ∀ pending, state.draft.Spans pending →
    (∀ block ∈ blocks, state.draft.function.Leads state.draft.function.entry block) →
      later.draft.Spans pending ∧
        (blocks ≠ [] → later.draft.function.Leads later.draft.function.entry done)

/-- The bodies of a switch start in their blocks and fall through to the block behind the switch. -/
theorem guides_arms (cases : List Case) {done : Ir.BlockId} {blocks : List Ir.BlockId}
    (guidesBodies : ∀ case_ ∈ cases, (Statement.lowerEach context case_.body).Guides cut)
    (length : blocks.length = cases.length) (guided : state.Guided (blocks.reverse ++ [done])) :
    (Case.lowerEach context done cases blocks).Yields state fun _ later =>
      State.GuidesArms cut done blocks state later := by
  induction cases generalizing state blocks with
  | nil =>
      obtain rfl := List.length_eq_zero_iff.mp length
      rw [Case.lowerEach]
      · exact .pure ⟨guided, .refl _, fun _ _ spans _ => ⟨spans, fun some_ => absurd rfl some_⟩⟩
      · rintro _ _ _ _ _ ⟨⟩
  | cons first rest ih =>
      obtain ⟨value, body⟩ := first
      obtain ⟨block, blocks, rfl⟩ := List.exists_cons_of_length_eq_add_one length
      obtain ⟨guidesBody, guidesRest⟩ := List.forall_mem_cons.mp guidesBodies
      rw [Case.lowerEach]
      have waits : state.Guided (blocks.reverse ++ block :: [done]) := by simpa using guided
      have entered := waits.moveTo
      apply Step.Yields.modify_bind
      apply Step.Yields.bind (guidesBody.inBlock entered)
      rintro _ performed ⟨passed, guides, after⟩
      have fallen := after.fallThrough (after.meant done (by simp))
      have grows := after.grows_fallThrough done
      apply Step.Yields.modify_bind
      apply (ih guidesRest (Nat.succ.inj length) fallen).mono
      rintro _ later others
      refine ⟨others.guided, (passed.grows.trans grows).trans others.grows, ?_⟩
      intro uncut pending spans leads
      have inside := spans.moveTo (waits.exit?_of_mem (by simp)) (leads block List.mem_cons_self)
      have atEnd := guides.connects uncut pending inside
      have stillLeads : ∀ block ∈ blocks, (performed.draft.fallThrough done).function.Leads
          (performed.draft.fallThrough done).function.entry block := by
        intro other isOther
        rw [grows.entry, passed.grows.entry]
        exact grows.leads (passed.grows.leads (leads other (List.mem_cons_of_mem _ isOther)))
      have toDone : (performed.draft.fallThrough done).function.Leads
          (performed.draft.fallThrough done).function.entry done := by
        rw [atEnd.fallThrough_eq]
        exact atEnd.leads_close (List.mem_singleton_self done)
      have still : (performed.draft.fallThrough done).Spans pending := by
        rw [atEnd.fallThrough_eq]
        exact atEnd.spans_close fun _ => .inr
      refine ⟨(others.connects uncut pending still stillLeads).1, fun _ => ?_⟩
      rw [others.grows.entry]
      exact others.grows.leads toDone

theorem guides_switch (scrutinee : Expression) (cases : List Case)
    (guidesBodies : ∀ case_ ∈ cases, (Statement.lowerEach context case_.body).Guides cut)
    (guided : state.Guided []) (isOpen : state.draft.IsOpen) :
    ((Statement.switch scrutinee cases).lower context).Yields state fun _ later =>
      state.Guides (decide (1 < Case.defaultCount cases) || cut) later := by
  rw [Statement.lower]
  have evaluates : (scrutinee.lower context).Respects State.SameFlow :=
    StraightLine.respects_lower scrutinee
  apply Step.Yields.bind (evaluates.yields state)
  intro value evaluated same
  apply Step.Yields.bind (makes_newBlock (by decide))
  intro done withDone makesDone
  apply Step.Yields.bind (makes_newArms value cases withDone)
  intro blocks made makesArms
  have guidedMade := makesArms.guided (makesDone.guided (guided.same isOpen same))
  have madeOpen := makesArms.isOpen (makesDone.isOpen (same.isOpen isOpen))
  have closed := guidedMade.close madeOpen fun target isTarget =>
    guidedMade.meant target (makesArms.waits value done isTarget)
  apply Step.Yields.modify_bind
  apply Step.Yields.bind (guides_arms cases guidesBodies makesArms.length closed)
  rintro _ performed others
  apply Step.Yields.modify
  refine ⟨others.guided.directed, ?_⟩
  intro uncut pending connected
  obtain ⟨single, uncut⟩ := Bool.or_eq_false_iff.mp uncut
  have few : Case.defaultCount cases ≤ 1 := by simpa using single
  have connectedMade := makesArms.connects (makesDone.connects (same.connected connected))
  have atArms := connectedMade.spans_close fun id isPending =>
    (List.mem_append.mp isPending).imp_left fun isArm =>
      makesArms.isTarget value done few (List.mem_reverse.mp isArm)
  obtain ⟨spans, fromArms⟩ := others.connects uncut (done :: pending) atArms fun arm isArm =>
    connectedMade.leads_close (makesArms.isTarget value done few isArm)
  -- Without a default the switch itself leads to `done`, with one at least the default's body does.
  have toDone : performed.draft.function.Leads performed.draft.function.entry done := by
    cases isDefault : blocks.default with
    | some block => exact fromArms (List.ne_nil_of_mem (makesArms.default block isDefault))
    | none =>
        rw [others.grows.entry]
        apply others.grows.leads
        apply connectedMade.leads_close
        simp [Ir.Terminator.successors, isDefault]
  exact (spans.connect toDone).moveTo (others.guided.exit?_of_mem List.mem_cons_self) toDone

/-! ## Loops -/

/-- After the body of a loop, control falls through to the step and from there to the head. The way out of
the loop has been connected before. -/
theorem guides_advance {head step done : Ir.BlockId} (advance : List Statement)
    (guidesStep : (Statement.lowerEach context advance).Guides cut) (guided : state.Guided [done, step])
    (headMeant : state.draft.function.Intended head) :
    Step.Yields
      (do
        Step.modify fun draft => (draft.fallThrough step).moveTo step
        Step.inBlock (Statement.lowerEach context advance)
        Step.modify fun draft => (draft.fallThrough head).moveTo done)
      state fun _ later => later.draft.function.Directed ∧
        (cut = false → state.draft.function.Leads state.draft.function.entry done →
          ∀ pending, state.draft.Connected (step :: pending) → later.draft.Connected pending) := by
  have atStep := guided.goOn [done] [] (guided.meant step (by simp))
  have intoStep := guided.grows_fallThrough step
  apply Step.Yields.modify_bind
  apply Step.Yields.bind (guidesStep.inBlock atStep)
  rintro _ afterStep ⟨passed, guides, guidedStep⟩
  apply Step.Yields.modify
  have stillMeant := passed.intended head (Ir.Draft.intended_fallThrough headMeant step)
  -- The edge back to the head connects nothing new: `done` was connected when the head was closed.
  refine ⟨Ir.Draft.directed_fallThrough guides.directed stillMeant, ?_⟩
  intro uncut leads pending connected
  have connectedStep : ((state.draft.fallThrough step).moveTo step).Connected pending := by
    apply guided.connected_goOn (by simp) connected
    · exact .inl rfl
    · simp
  have grows := intoStep.trans passed.grows
  apply guidedStep.connected_goOn List.mem_cons_self (guides.connects uncut pending connectedStep)
  · refine .inr ?_
    rw [grows.entry]
    exact grows.leads leads
  · exact fun _ => .inr

/-- The rounds of a loop connect its blocks: the head leads to the body and out of the loop, the body to
the step. -/
theorem guides_rounds {head body step done : Ir.BlockId} (condition : Expression)
    (advance inside : List Statement) (guidesStep : (Statement.lowerEach context advance).Guides cut)
    (guidesBody : (Statement.lowerEach context inside).Guides cut)
    (guided : state.Guided [done, step, body, head]) :
    Step.Yields
      (loopRounds head body step done (condition.lowerToCondition context)
        (Statement.lowerEach context inside) (Statement.lowerEach context advance))
      state fun _ later => later.draft.function.Directed ∧
        (cut = false → ∀ pending, state.draft.Connected (done :: step :: body :: head :: pending) →
          later.draft.Connected pending) := by
  rw [loopRounds]
  have headMeant := guided.meant head (by simp)
  have headWaits : head ∈ [done, step, body, head] := by simp
  have atHead := guided.goOn [done, step, body] [] headMeant
  have headOpen := (guided.fallThrough headMeant).isOpen_moveTo headWaits
  apply Step.Yields.modify_bind
  have evaluates : (condition.lowerToCondition context).Respects State.SameFlow :=
    StraightLine.respects_lowerToCondition condition
  apply Step.Yields.bind (evaluates.yields _)
  intro value evaluated same
  have guidedEvaluated : evaluated.Guided [done, step, body] := atHead.same headOpen same
  have isOpen := same.isOpen headOpen
  apply Step.Yields.modify_bind
  have atBody := guidedEvaluated.enter [done, step] [] isOpen (.branch value body done)
    (by simp [Ir.Terminator.successors])
  have exitsWait (exit : LoopExit) : LoopFrame.target ⟨done, step⟩ exit ∈ [done, step] := by
    cases exit <;> simp [LoopFrame.target]
  apply Step.Yields.bind (guidesBody.inLoop atBody exitsWait)
  rintro _ afterBody ⟨passed, guides, guidedBody⟩
  have stillMeant : afterBody.draft.function.Intended head :=
    passed.intended head (Ir.Draft.intended_close (same.intended
      (Ir.Draft.intended_fallThrough headMeant head)) _)
  apply (guides_advance advance guidesStep guidedBody stillMeant).mono
  rintro _ later ⟨directed, connects⟩
  refine ⟨directed, fun uncut pending connected => ?_⟩
  have connectedHead : ((state.draft.fallThrough head).moveTo head).Connected
      (done :: step :: body :: pending) := by
    apply guided.connected_goOn headWaits connected
    · exact .inl rfl
    · simp only [List.mem_cons]
      tauto
  have connectedEvaluated := same.connected connectedHead
  have leads {block : Ir.BlockId} (isTarget : block ∈ [body, done]) :
      (evaluated.draft.close (.branch value body done)).function.Leads evaluated.draft.function.entry
        block :=
    connectedEvaluated.leads_close isTarget
  have connectedBody : ((evaluated.draft.close (.branch value body done)).moveTo body).Connected
      (step :: pending) := by
    apply guidedEvaluated.connected_enter (by simp) connectedEvaluated _ (leads List.mem_cons_self)
    simp only [Ir.Terminator.successors, List.mem_cons]
    tauto
  apply connects uncut _ pending (guides.connects uncut _ connectedBody)
  rw [passed.grows.entry]
  exact passed.grows.leads (leads (by simp))

theorem guides_loop (init : List Statement) (condition : Expression) (advance body : List Statement)
    (guidesInit : (Statement.lowerEach context init).Guides cut)
    (guidesStep : (Statement.lowerEach context advance).Guides cut)
    (guidesBody : (Statement.lowerEach context body).Guides cut) (guided : state.Guided [])
    (isOpen : state.draft.IsOpen) :
    ((Statement.loop init condition advance body).lower context).Yields state fun _ later =>
      state.Guides cut later := by
  rw [Statement.lower_loop]
  apply Step.Yields.bind (makes_newBlock (by decide))
  intro initBlock made makes
  have guidedMade : made.Guided [initBlock] := makes.guided guided
  have atInit := guidedMade.enter [] [] (makes.isOpen isOpen) (.jump initBlock) fun _ => id
  apply Step.Yields.modify_bind
  apply Step.Yields.inBlock
  apply Step.Yields.bind (guidesInit (atInit.inScope _))
  rintro _ begun ⟨passed, guides⟩
  have guidedBegun := (atInit.inScope made.scope.enter).after passed guides.directed
  rw [withLoopBlocks]
  apply Step.Yields.bind (makes_newBlock (by decide))
  intro head withHead makesHead
  apply Step.Yields.bind (makes_newBlock (by decide))
  intro inside withBody makesBody
  apply Step.Yields.bind (makes_newBlock (by decide))
  intro step withStep makesStep
  apply Step.Yields.bind (makes_newBlock (by decide))
  intro done withDone makesDone
  have guidedRounds : withDone.Guided [done, step, inside, head] :=
    makesDone.guided (makesStep.guided (makesBody.guided (makesHead.guided guidedBegun)))
  apply (guides_rounds condition advance body guidesStep guidesBody guidedRounds).mono
  rintro _ later ⟨directed, connects⟩
  refine ⟨directed, fun uncut pending connected => ?_⟩
  apply connects uncut
  apply makesDone.connects
  apply makesStep.connects
  apply makesBody.connects
  apply makesHead.connects
  apply guides.connects uncut
  have connectedMade := makes.connects connected
  apply guidedMade.connected_enter List.mem_cons_self connectedMade
  · exact connectedMade.leads_close List.mem_cons_self
  · exact fun id isPending => (List.mem_cons.mp isPending).imp_left List.mem_singleton.mpr

/-- A loop exit cuts off what comes after. -/
theorem guides_leaveIteration (exit : LoopExit) (guided : state.Guided []) :
    (leaveIteration exit).Yields state fun _ later => state.Guides true later := by
  apply Step.Yields.inspect_bind
  apply Step.Yields.ofExcept_bind
  intro target isTarget
  obtain ⟨frame, innermost, rfl⟩ := Loops.innermost_of_target isTarget
  apply Step.Yields.modify
  refine ⟨Ir.Draft.directed_close guided.directed ?_, nofun⟩
  intro other isOther
  rw [List.mem_singleton.mp isOther]
  exact guided.loops frame (List.mem_of_mem_head? innermost) exit

/-! ## All statements -/

/-- Straight-line code connects no blocks and makes none. -/
theorem Step.Respects.guides {step : Step Unit} (respects : step.Respects State.SameFlow)
    (guided : state.Guided []) : step.Yields state fun _ later => state.Guides cut later := by
  apply (respects.yields state).mono
  intro _ later same
  exact ⟨Ir.Draft.directed_of_eq guided.directed same.exits same.labels,
    fun _ _ connected => same.connected connected⟩

mutual

theorem guides_statement : (statement : Statement) → ∀ {state : State}, state.Guided [] →
    state.draft.IsOpen → (statement.lower context).Yields state fun _ later =>
      state.Guides statement.cutsOff later
  | .block body, state, guided, isOpen => by
      rw [Statement.lower, Statement.cutsOff]
      apply ((guides_statements body).inBlock guided).mono
      rintro _ later ⟨-, guides, -⟩
      exact guides
  | .declaration declared initialiser, state, guided, isOpen => by
      rw [Statement.lower]
      apply Step.Respects.guides _ guided
      apply Step.Respects.bind (sameFlow_declareAll declared)
      intro targets
      cases initialiser with
      | none => exact .pure ()
      | some value => exact StraightLine.respects_assign targets value
  | .assignment names value, state, guided, isOpen => by
      rw [Statement.lower]
      apply Step.Respects.guides _ guided
      exact .bind (.lookups names) fun targets => StraightLine.respects_assign targets value
  | .expression expression, state, guided, isOpen => by
      rw [Statement.lower]
      exact Step.Respects.guides (StraightLine.respects_perform expression) guided
  | .conditional condition body, state, guided, isOpen => by
      rw [Statement.cutsOff]
      exact guides_conditional condition body (guides_statements body) guided isOpen
  | .switch scrutinee cases, state, guided, isOpen => by
      rw [Statement.cutsOff]
      exact guides_switch scrutinee cases (guides_cases cases) guided isOpen
  | .loop init condition step body, state, guided, isOpen => by
      rw [Statement.cutsOff]
      apply guides_loop init condition step body _ _ _ guided isOpen
      · exact (guides_statements init).mono (by simp +contextual)
      · exact (guides_statements step).mono (by simp +contextual)
      · exact (guides_statements body).mono (by simp +contextual)
  | .breakLoop, state, guided, isOpen => by
      rw [Statement.lower, Statement.cutsOff]
      exact guides_leaveIteration .breakLoop guided
  | .continueLoop, state, guided, isOpen => by
      rw [Statement.lower, Statement.cutsOff]
      exact guides_leaveIteration .continueLoop guided
  | .definition name _ _ _, state, guided, isOpen => by
      rw [Statement.lower]
      exact .throw _
  | .label _, state, guided, isOpen => by
      rw [Statement.lower]
      exact .throw _
  | .stackAssignment _, state, guided, isOpen => by
      rw [Statement.lower]
      exact .throw _

theorem guides_statements : (statements : List Statement) →
    (Statement.lowerEach context statements).Guides (Statement.anyCutsOff statements)
  | [] => by
      intro state guided
      rw [Statement.lowerEach]
      exact .pure ⟨⟨fun _ => id, .refl _, fun _ => id, rfl⟩, guided.directed, fun _ _ => id⟩
  | statement :: rest => by
      intro state guided
      rw [Statement.anyCutsOff]
      -- What the statements pass by is known of the whole list, so only the guiding is followed here.
      apply (passed_statements (statement :: rest) guided.settled).and
      rw [Statement.lowerEach]
      apply Step.Yields.bind guided.openBlock
      rintro _ opened ⟨guidedOpened, isOpen, connectsOpened⟩
      apply Step.Yields.bind ((passed_statement statement guidedOpened.settled isOpen).and
        (guides_statement statement guidedOpened isOpen))
      rintro _ middle ⟨passed, guides⟩
      apply (guides_statements rest (guidedOpened.after passed guides.directed)).mono
      rintro _ later ⟨-, others⟩
      refine ⟨others.directed, ?_⟩
      intro uncut pending connected
      obtain ⟨uncutFirst, uncutRest⟩ := Bool.or_eq_false_iff.mp uncut
      exact others.connects uncutRest pending
        (guides.connects uncutFirst pending (connectsOpened pending connected))

theorem guides_cases : (cases : List Case) → ∀ case_ ∈ cases,
    (Statement.lowerEach context case_.body).Guides (Case.anyCutsOff cases)
  | [] => by simp
  | ⟨value, body⟩ :: rest => by
      rw [Case.anyCutsOff]
      refine List.forall_mem_cons.mpr ⟨?_, ?_⟩
      · exact (guides_statements body).mono (by simp +contextual)
      · intro case_ isCase
        exact (guides_cases rest case_ isCase).mono (by simp +contextual)

end

end Lowering

end YulLowering
