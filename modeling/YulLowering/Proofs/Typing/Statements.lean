import YulLowering.Proofs.Loops
import YulLowering.Proofs.Typing.Expressions

/-!
# Well-typed statements become well-typed code

The variables that the lowering sees in front of a statement are those that the source tells, with the types
they have been declared with.
-/

namespace YulLowering.Lowering

variable {context : Context} {surroundings : Surroundings} {state : State}

/-! ## Declarations and assignments -/

theorem wellTyped_declareAll (declared : List TypedName) (typed : state.WellTyped context) :
    (declareAll context declared).Yields state fun _ later => later.WellTyped context := by
  induction declared generalizing state with
  | nil => exact .pure typed
  | cons head rest ih =>
      obtain ⟨name, typeName⟩ := head
      apply Step.Yields.ofExcept_bind
      intro type _
      apply Step.Yields.declare_bind
      apply Step.Yields.bind (ih (typed.declared name type))
      intro bindings later typed
      exact .pure typed

/-- An initialiser has the types of the variables it is for. -/
theorem wellTyped_declaration (reflects : context.Reflects surroundings)
    (valued : surroundings.types.Valued) {declared : List TypedName} {value : Expression}
    (apart : declared.all (fun target => !value.mentions target.name) = true)
    (wellTyped : (Statement.declaration declared (some value)).isWellTyped surroundings
      state.scope.typing = true) (typed : state.WellTyped context) :
    ((Statement.declaration declared (some value)).lower context).Yields state
      fun _ later => later.WellTyped context := by
  simp only [Statement.isWellTyped, Bool.and_eq_true] at wellTyped
  have unseen : ∀ name, value.mentions name = true →
      (state.scope.typing.declare (surroundings.types.typed declared)).lookup name =
        state.scope.typing.lookup name := Expression.lookup_declare apart _
  rw [← Expression.isWellTyped_congr value unseen, ← Expression.gives_congr unseen] at wellTyped
  rw [Statement.lower]
  apply Step.Yields.bind ((wellTyped_declareAll declared typed).and
    (reports_declareAll reflects.types declared).yields)
  rintro bindings middle ⟨typed, adds⟩
  rw [← adds.leaves.typing, ← adds.described, List.map_map] at wellTyped
  refine wellTyped_assign reflects valued wellTyped.1 wellTyped.2 ?_ typed
  intro target member
  rw [adds.visible]
  exact List.mem_append_right _ member

theorem wellTyped_assignment (reflects : context.Reflects surroundings)
    (valued : surroundings.types.Valued) {names : List String} {value : Expression}
    (wellTyped : (Statement.assignment names value).isWellTyped surroundings
      state.scope.typing = true) (typed : state.WellTyped context) :
    ((Statement.assignment names value).lower context).Yields state
      fun _ later => later.WellTyped context := by
  simp only [Statement.isWellTyped, Bool.and_eq_true] at wellTyped
  rw [Statement.lower]
  apply Step.Yields.bind (.lookups names)
  rintro targets _ ⟨rfl, means⟩
  have types : (names.map fun name => state.scope.typing.lookup name) =
      targets.map fun target => some target.type := by
    clear wellTyped
    induction means with
    | nil => rfl
    | cons found _ ih => rw [List.map_cons, List.map_cons, ih, Scope.lookup_typing, found, Option.map_some]
  rw [types] at wellTyped
  exact wellTyped_assign reflects valued wellTyped.1 wellTyped.2 means.mem typed

theorem wellTyped_perform (reflects : context.Reflects surroundings)
    (valued : surroundings.types.Valued) {expression : Expression}
    (wellTyped : expression.isWellTyped surroundings state.scope.typing = true)
    (typed : state.WellTyped context) :
    (expression.perform context).Yields state fun _ later => later.WellTyped context := by
  have evaluates : (do let _ ← expression.lower context).Yields state
      fun _ later => later.WellTyped context :=
    .bind (wellTyped_lower reflects valued expression wellTyped typed) fun _ _ typed => .pure typed
  cases expression with
  | call callee arguments =>
      simp only [Expression.isWellTyped, Bool.and_eq_true, beq_iff_eq] at wellTyped
      obtain ⟨argumentsTyped, agree⟩ := wellTyped
      have evaluates := wellTyped_lowerEach reflects valued arguments argumentsTyped typed
      exact wellTyped_call reflects agree evaluates typed fun typed => .pure typed
  | identifier | literal | instructionCall | instruction => exact evaluates

theorem wellTyped_lowerToCondition (reflects : context.Reflects surroundings)
    (valued : surroundings.types.Valued) {condition : Expression} {typing : Typing}
    (wellTyped : condition.isWellTyped surroundings typing = true)
    (typed : state.WellTyped context) (visible : state.scope.typing = typing) :
    (condition.lowerToCondition context).Yields state
      fun _ later => later.WellTyped context ∧ Undisturbed state later := by
  refine .and ?_ (reports_lowerToCondition reflects valued condition visible).yields
  subst visible
  apply Step.Yields.bind (wellTyped_lower reflects valued condition wellTyped typed)
  intro operand later typed
  apply Step.Yields.write
  cases isBool : operand.type.isBool with
  | true =>
      rw [Ir.Draft.toCondition, if_pos isBool]
      exact typed
  | false =>
      rw [Ir.Draft.toCondition_eq _ _ isBool]
      exact typed.write rfl trivial

/-! ## Control flow -/

theorem State.WellTyped.leaveBlock (typed : state.WellTyped context) :
    ({ state with scope := state.scope.leave } : State).WellTyped context := by
  refine typed.hide ?_ state.loops
  unfold Scope.leave
  split
  · exact List.Subset.refl _
  · exact List.take_subset _ _

theorem wellTyped_openBlock (typed : state.WellTyped context) :
    openBlock.Yields state fun _ later => later.WellTyped context := by
  apply Step.Yields.inspect_bind
  cases state.draft.isClosed with
  | false => exact .pure typed
  | true =>
      apply Step.Yields.write_bind
      exact .modify ((typed.newBlock _).moveTo _)

theorem wellTyped_newBlock (label : String) (typed : state.WellTyped context) :
    (newBlock label).Yields state fun _ later =>
      later.WellTyped context ∧ Undisturbed state later :=
  .write ⟨typed.newBlock label, ⟨rfl, rfl, rfl⟩⟩

theorem wellTyped_leaveIteration (exit : LoopExit) (typed : state.WellTyped context) :
    (leaveIteration exit).Yields state fun _ later => later.WellTyped context := by
  apply Step.Yields.inspect_bind
  apply Step.Yields.ofExcept_bind
  intro target _
  exact .modify (typed.close (.jump target))

/-- Statements that become well-typed code wherever some variables are visible. -/
def WellTypedBody (context : Context) (typing : Typing) (body : List Statement) : Prop :=
  ∀ ⦃state : State⦄, state.WellTyped context → state.scope.typing = typing →
    (Statement.lowerEach context body).Yields state fun _ later => later.WellTyped context

theorem WellTypedBody.yields {typing : Typing} {body : List Statement}
    (wellTyped : WellTypedBody context typing body) (reports : ReportsBody context surroundings body)
    (typed : state.WellTyped context) (visible : state.scope.typing = typing) :
    (Statement.lowerEach context body).Yields state fun _ later => later.WellTyped context ∧
      Leaves state (Statement.declareEach surroundings.types typing body) later :=
  .and (wellTyped typed visible) (reports ⟨visible, rfl⟩).yields

theorem WellTypedBody.inBlock {typing : Typing} {body : List Statement}
    (wellTyped : WellTypedBody context typing body) (reports : ReportsBody context surroundings body)
    (typed : state.WellTyped context) (visible : state.scope.typing = typing) :
    (Step.inBlock (Statement.lowerEach context body)).Yields state
      fun _ later => later.WellTyped context ∧ Leaves state state.scope.typing later := by
  refine .and ?_ (reports.inBlock ⟨rfl, rfl⟩).yields
  have same : state.scope.enter.bindings ⊆ state.scope.bindings := List.Subset.refl _
  have inside : ({ state with scope := state.scope.enter } : State).scope.typing = typing := visible
  apply Step.Yields.inBlock
  exact (wellTyped (typed.hide same state.loops) inside).mono fun _ _ => State.WellTyped.leaveBlock

theorem WellTypedBody.inLoop {typing : Typing} {body : List Statement}
    (wellTyped : WellTypedBody context typing body) (reports : ReportsBody context surroundings body)
    (targets : LoopFrame) (typed : state.WellTyped context) (visible : state.scope.typing = typing) :
    (Step.inLoop targets (Step.inBlock (Statement.lowerEach context body))).Yields state
      fun _ later => later.WellTyped context ∧ Leaves state state.scope.typing later := by
  refine .and ?_ (reports.inLoop targets).yields
  have entered := typed.hide (List.Subset.refl _) (state.loops.enter targets)
  apply Step.Yields.inLoop
  apply (wellTyped.inBlock reports entered visible).mono
  rintro _ later ⟨typed, -⟩
  exact typed.hide (List.Subset.refl _) later.loops.leave

theorem wellTyped_conditional (reflects : context.Reflects surroundings)
    (valued : surroundings.types.Valued) {condition : Expression} {body : List Statement}
    (conditionTyped : condition.isWellTyped surroundings state.scope.typing = true)
    (bodyTyped : WellTypedBody context state.scope.typing body)
    (reportsBody : ReportsBody context surroundings body) (typed : state.WellTyped context) :
    ((Statement.conditional condition body).lower context).Yields state
      fun _ later => later.WellTyped context := by
  rw [Statement.lower]
  apply Step.Yields.bind (wellTyped_lowerToCondition reflects valued conditionTyped typed rfl)
  rintro value middle ⟨typed, undisturbed⟩
  apply Step.Yields.bind (wellTyped_newBlock "if.then" typed)
  rintro onTrue _ ⟨typed, withThen⟩
  apply Step.Yields.bind (wellTyped_newBlock "if.end" typed)
  rintro done _ ⟨typed, withEnd⟩
  have visible := ((undisturbed.trans withThen).trans withEnd).leaves.typing
  apply Step.Yields.modify_bind
  have entered := (typed.close (.branch value onTrue done)).moveTo onTrue
  apply Step.Yields.bind (bodyTyped.inBlock reportsBody entered visible)
  rintro _ later ⟨typed, -⟩
  exact .modify ((typed.fallThrough done).moveTo done)

/-! ## Switches -/

theorem wellTyped_newArms (scrutinee : Ir.Value) (cases : List Case) (typed : state.WellTyped context) :
    (newArms scrutinee cases).Yields state fun _ later => later.WellTyped context := by
  induction cases generalizing state with
  | nil => exact .pure typed
  | cons arm rest ih =>
      obtain ⟨value, body⟩ := arm
      cases value with
      | some literal =>
          apply Step.Yields.bind (wellTyped_newBlock "switch.case" typed)
          rintro block _ ⟨typed, -⟩
          apply Step.Yields.ofExcept_bind
          intro constant _
          exact .bind (ih typed) fun _ _ typed => .pure typed
      | none =>
          apply Step.Yields.bind (wellTyped_newBlock "switch.default" typed)
          rintro block _ ⟨typed, -⟩
          exact .bind (ih typed) fun _ _ typed => .pure typed

/-- The bodies of a switch all see the same variables. -/
theorem wellTyped_cases {typing : Typing} (cases : List Case)
    (bodiesTyped : ∀ arm ∈ cases, WellTypedBody context typing arm.body)
    (reportsBodies : ∀ arm ∈ cases, ReportsBody context surroundings arm.body) (done : Ir.BlockId)
    (blocks : List Ir.BlockId) (typed : state.WellTyped context)
    (visible : state.scope.typing = typing) :
    (Case.lowerEach context done cases blocks).Yields state fun _ later => later.WellTyped context := by
  induction cases generalizing blocks state with
  | nil =>
      rw [Case.lowerEach]
      · exact .pure typed
      · simp
  | cons arm rest ih =>
      obtain ⟨value, body⟩ := arm
      obtain ⟨firstTyped, restTyped⟩ := List.forall_mem_cons.mp bodiesTyped
      obtain ⟨reportsFirst, reportsRest⟩ := List.forall_mem_cons.mp reportsBodies
      cases blocks with
      | nil =>
          rw [Case.lowerEach]
          · exact .pure typed
          · simp
      | cons block blocks =>
          rw [Case.lowerEach]
          apply Step.Yields.modify_bind
          apply Step.Yields.bind (firstTyped.inBlock reportsFirst (typed.moveTo block) visible)
          rintro _ performed ⟨typed, performs⟩
          apply Step.Yields.modify_bind
          exact ih restTyped reportsRest blocks (typed.fallThrough done)
            (performs.typing.trans visible)

theorem wellTyped_switch (reflects : context.Reflects surroundings)
    (valued : surroundings.types.Valued) {scrutinee : Expression} {cases : List Case}
    (scrutineeTyped : scrutinee.isWellTyped surroundings state.scope.typing = true)
    (bodiesTyped : ∀ arm ∈ cases, WellTypedBody context state.scope.typing arm.body)
    (reportsBodies : ∀ arm ∈ cases, ReportsBody context surroundings arm.body)
    (typed : state.WellTyped context) :
    ((Statement.switch scrutinee cases).lower context).Yields state
      fun _ later => later.WellTyped context := by
  rw [Statement.lower]
  apply Step.Yields.bind ((wellTyped_lower reflects valued scrutinee scrutineeTyped typed).and
    (scrutinee.reports_lower reflects valued).yields)
  rintro value _ ⟨typed, evaluated, -⟩
  apply Step.Yields.bind (wellTyped_newBlock "switch.end" typed)
  rintro done _ ⟨typed, withEnd⟩
  apply Step.Yields.bind ((wellTyped_newArms value cases typed).and
    (reports_newArms value cases).yields)
  rintro blocks _ ⟨typed, withArms, -⟩
  have visible := ((evaluated.trans withEnd).trans withArms).leaves.typing
  apply Step.Yields.modify_bind
  apply Step.Yields.bind
    (wellTyped_cases cases bodiesTyped reportsBodies done blocks.arms (typed.close _) visible)
  intro _ later typed
  exact .modify (typed.moveTo done)

/-! ## Loops -/

theorem wellTyped_rounds (reflects : context.Reflects surroundings)
    (valued : surroundings.types.Valued) {condition : Expression} {step body : List Statement}
    {typing : Typing} (conditionTyped : condition.isWellTyped surroundings typing = true)
    (stepTyped : WellTypedBody context typing step) (bodyTyped : WellTypedBody context typing body)
    (reportsStep : ReportsBody context surroundings step)
    (reportsBody : ReportsBody context surroundings body) (head inside advance done : Ir.BlockId)
    (visible : state.scope.typing = typing) (typed : state.WellTyped context) :
    (loopRounds head inside advance done (condition.lowerToCondition context)
      (Statement.lowerEach context body) (Statement.lowerEach context step)).Yields state
        fun _ later => later.WellTyped context := by
  rw [loopRounds]
  apply Step.Yields.modify_bind
  have atHead := (typed.fallThrough head).moveTo head
  apply Step.Yields.bind (wellTyped_lowerToCondition reflects valued conditionTyped atHead visible)
  rintro value _ ⟨typed, evaluated⟩
  have visible := evaluated.leaves.typing.trans visible
  apply Step.Yields.modify_bind
  have atBody := (typed.close (.branch value inside done)).moveTo inside
  apply Step.Yields.bind (bodyTyped.inLoop reportsBody _ atBody visible)
  rintro _ _ ⟨typed, performed⟩
  have visible := performed.typing.trans visible
  apply Step.Yields.modify_bind
  have atStep := (typed.fallThrough advance).moveTo advance
  apply Step.Yields.bind (stepTyped.inBlock reportsStep atStep visible)
  rintro _ later ⟨typed, -⟩
  exact .modify ((typed.fallThrough head).moveTo done)

theorem wellTyped_loop (reflects : context.Reflects surroundings)
    (valued : surroundings.types.Valued) {init : List Statement} {condition : Expression}
    {step body : List Statement} {typing : Typing}
    (isInside : typing = Statement.declareEach surroundings.types state.scope.typing init)
    (initTyped : WellTypedBody context state.scope.typing init)
    (conditionTyped : condition.isWellTyped surroundings typing = true)
    (stepTyped : WellTypedBody context typing step) (bodyTyped : WellTypedBody context typing body)
    (reportsInit : ReportsBody context surroundings init)
    (reportsStep : ReportsBody context surroundings step)
    (reportsBody : ReportsBody context surroundings body) (typed : state.WellTyped context) :
    ((Statement.loop init condition step body).lower context).Yields state
      fun _ later => later.WellTyped context := by
  rw [Statement.lower_loop]
  apply Step.Yields.bind (wellTyped_newBlock "for.init" typed)
  rintro initBlock made ⟨typed, withInit⟩
  have visible := withInit.leaves.typing
  apply Step.Yields.modify_bind
  have entered := (typed.close (.jump initBlock)).moveTo initBlock
  have same : made.scope.enter.bindings ⊆ made.scope.bindings := List.Subset.refl _
  apply Step.Yields.inBlock
  apply Step.Yields.bind (initTyped.yields reportsInit (entered.hide same made.loops) visible)
  rintro _ _ ⟨typed, initialised⟩
  rw [withLoopBlocks]
  apply Step.Yields.bind (wellTyped_newBlock "for.cond" typed)
  rintro head _ ⟨typed, withHead⟩
  apply Step.Yields.bind (wellTyped_newBlock "for.body" typed)
  rintro bodyBlock _ ⟨typed, withBody⟩
  apply Step.Yields.bind (wellTyped_newBlock "for.post" typed)
  rintro advance _ ⟨typed, withStep⟩
  apply Step.Yields.bind (wellTyped_newBlock "for.exit" typed)
  rintro done _ ⟨typed, withDone⟩
  have ready := initialised.undisturbed (((withHead.trans withBody).trans withStep).trans withDone)
  exact (wellTyped_rounds reflects valued conditionTyped stepTyped bodyTyped reportsStep reportsBody
    head bodyBlock advance done (ready.typing.trans isInside.symm) typed).mono
      fun _ _ => State.WellTyped.leaveBlock

/-! ## All statements -/

mutual

/-- A well-typed statement becomes well-typed code. -/
theorem wellTyped_statement (reflects : context.Reflects surroundings)
    (valued : surroundings.types.Valued) {arity : String → Option Nat} {lenient : Bool} :
    (statement : Statement) → statement.isProper arity lenient = true → {typing : Typing} →
    statement.isWellTyped surroundings typing = true → {state : State} →
    state.scope.typing = typing → state.WellTyped context →
    (statement.lower context).Yields state fun _ later => later.WellTyped context
  | .block body, proper, _, wellTyped, _, visible, typed => by
      rw [Statement.isProper] at proper
      rw [Statement.isWellTyped] at wellTyped
      rw [Statement.lower]
      exact ((wellTyped_statements reflects valued body proper wellTyped).inBlock
        (reports_statements reflects valued body proper) typed visible).mono fun _ _ => And.left
  | .declaration declared none, _, _, _, _, _, typed => by
      rw [Statement.lower]
      exact .bind (wellTyped_declareAll declared typed) fun _ _ typed => .pure typed
  | .declaration declared (some value), proper, _, wellTyped, _, rfl, typed => by
      simp only [Statement.isProper, Bool.and_eq_true] at proper
      exact wellTyped_declaration reflects valued proper.1 wellTyped typed
  | .assignment names value, _, _, wellTyped, _, rfl, typed =>
      wellTyped_assignment reflects valued wellTyped typed
  | .expression expression, _, _, wellTyped, _, rfl, typed => by
      rw [Statement.isWellTyped] at wellTyped
      rw [Statement.lower]
      exact wellTyped_perform reflects valued wellTyped typed
  | .conditional condition body, proper, _, wellTyped, _, rfl, typed => by
      simp only [Statement.isProper, Bool.and_eq_true] at proper
      simp only [Statement.isWellTyped, Bool.and_eq_true] at wellTyped
      exact wellTyped_conditional reflects valued wellTyped.1
        (wellTyped_statements reflects valued body proper.2 wellTyped.2)
        (reports_statements reflects valued body proper.2) typed
  | .switch scrutinee cases, proper, _, wellTyped, _, rfl, typed => by
      simp only [Statement.isProper, Bool.and_eq_true] at proper
      simp only [Statement.isWellTyped, Bool.and_eq_true] at wellTyped
      exact wellTyped_switch reflects valued wellTyped.1
        (wellTyped_bodies reflects valued cases proper.2 wellTyped.2)
        (reports_bodies reflects valued cases proper.2) typed
  | .loop init condition step body, proper, _, wellTyped, _, rfl, typed => by
      simp only [Statement.isProper, Bool.and_eq_true] at proper
      obtain ⟨⟨⟨properInit, -⟩, properStep⟩, properBody⟩ := proper
      simp only [Statement.isWellTyped, Bool.and_eq_true] at wellTyped
      obtain ⟨⟨⟨typedInit, typedCondition⟩, typedStep⟩, typedBody⟩ := wellTyped
      exact wellTyped_loop reflects valued rfl
        (wellTyped_statements reflects valued init properInit typedInit) typedCondition
        (wellTyped_statements reflects valued step properStep typedStep)
        (wellTyped_statements reflects valued body properBody typedBody)
        (reports_statements reflects valued init properInit)
        (reports_statements reflects valued step properStep)
        (reports_statements reflects valued body properBody) typed
  | .breakLoop, _, _, _, _, _, typed => by
      rw [Statement.lower]
      exact wellTyped_leaveIteration .breakLoop typed
  | .continueLoop, _, _, _, _, _, typed => by
      rw [Statement.lower]
      exact wellTyped_leaveIteration .continueLoop typed
  | .definition name _ _ _, _, _, _, _, _, _ => by
      rw [Statement.lower]
      exact .throw _
  | .label _, _, _, _, _, _, _ => by
      rw [Statement.lower]
      exact .throw _
  | .stackAssignment _, _, _, _, _, _, _ => by
      rw [Statement.lower]
      exact .throw _

theorem wellTyped_statements (reflects : context.Reflects surroundings)
    (valued : surroundings.types.Valued) {arity : String → Option Nat} {lenient : Bool} :
    (statements : List Statement) → Statement.areProper arity lenient statements = true →
    {typing : Typing} → Statement.areWellTyped surroundings typing statements = true →
    WellTypedBody context typing statements
  | [], _, _, _ => by
      intro state typed _
      rw [Statement.lowerEach]
      exact .pure typed
  | statement :: rest, proper, _, wellTyped => by
      simp only [Statement.areProper, Bool.and_eq_true] at proper
      simp only [Statement.areWellTyped, Bool.and_eq_true] at wellTyped
      intro state typed visible
      rw [Statement.lowerEach]
      apply Step.Yields.bind ((wellTyped_openBlock typed).and reports_openBlock.yields)
      rintro _ opened ⟨typed, opens⟩
      have visible := opens.leaves.typing.trans visible
      apply Step.Yields.bind
        ((wellTyped_statement reflects valued statement proper.1 wellTyped.1 visible typed).and
          (reports_statement reflects valued statement proper.1 ⟨visible, rfl⟩).yields)
      rintro _ middle ⟨typed, performed⟩
      exact wellTyped_statements reflects valued rest proper.2 wellTyped.2 typed performed.typing

theorem wellTyped_bodies (reflects : context.Reflects surroundings)
    (valued : surroundings.types.Valued) {arity : String → Option Nat} {lenient : Bool} :
    (cases : List Case) → Case.areProper arity lenient cases = true → {typing : Typing} →
    Case.areWellTyped surroundings typing cases = true →
    ∀ arm ∈ cases, WellTypedBody context typing arm.body
  | [], _, _, _, arm, member => by cases member
  | ⟨_, body⟩ :: rest, proper, _, wellTyped, arm, member => by
      simp only [Case.areProper, Bool.and_eq_true] at proper
      simp only [Case.areWellTyped, Bool.and_eq_true] at wellTyped
      rcases List.mem_cons.mp member with rfl | member
      · exact wellTyped_statements reflects valued body proper.1 wellTyped.1
      · exact wellTyped_bodies reflects valued rest proper.2 wellTyped.2 arm member

end

end YulLowering.Lowering
