import YulLowering.Proofs.Loops
import YulLowering.Proofs.Violations.Expressions

/-!
# Statements report the first of what is wrong

A statement is lowered if nothing is wrong with it. The variables that are visible afterwards are those that
the source tells, and the loops around it are still there.
-/

namespace YulLowering

open Lowering

variable {context : Context} {surroundings : Surroundings} {state : State}

/-! ## Variables that are not mentioned -/

mutual

/-- What is wrong with an expression only depends on the variables that it mentions. -/
theorem Expression.faults_congr {first second : Typing} : (expression : Expression) →
    (∀ name, expression.mentions name = true → first.lookup name = second.lookup name) →
    expression.faults surroundings first = expression.faults surroundings second
  | .call callee arguments, same => by
      have same : ∀ name, Expression.mentionsAny name arguments = true →
          first.lookup name = second.lookup name :=
        fun name mentioned => same name (by rwa [Expression.mentions])
      simp only [Expression.faults, Expression.argumentFaults_congr arguments same]
  | .identifier name, same => by
      have visible := same name (by simp [Expression.mentions])
      simp only [Expression.faults, Typing.faults, List.filter_cons, visible, List.filter_nil]
  | .literal _, _ => rfl
  | .instructionCall _ _, _ => rfl
  | .instruction _, _ => rfl

theorem Expression.argumentFaults_congr {first second : Typing} : (arguments : List Expression) →
    (∀ name, Expression.mentionsAny name arguments = true →
      first.lookup name = second.lookup name) →
    Expression.argumentFaults surroundings first arguments =
      Expression.argumentFaults surroundings second arguments
  | [], _ => rfl
  | argument :: rest, same => by
      have head : ∀ name, argument.mentions name = true → first.lookup name = second.lookup name :=
        fun name mentioned => same name (by simp [Expression.mentionsAny, mentioned])
      have tail := Expression.argumentFaults_congr rest
        fun name mentioned => same name (by simp [Expression.mentionsAny, mentioned])
      simp only [Expression.argumentFaults, argument.faults_congr head, tail]

end

theorem Expression.sourceFaults_congr {first second : Typing} {expression : Expression}
    (same : ∀ name, expression.mentions name = true → first.lookup name = second.lookup name)
    (count : Nat) :
    expression.sourceFaults surroundings first count =
      expression.sourceFaults surroundings second count := by
  unfold Expression.sourceFaults Expression.operandFaults
  rw [expression.faults_congr same]

/-- Declared variables make no difference to an expression that mentions none of them. -/
theorem Expression.lookup_declare {types : TypeNames} {declared : List TypedName}
    {expression : Expression}
    (apart : declared.all (fun target => !expression.mentions target.name) = true) (typing : Typing)
    (name : String) (mentioned : expression.mentions name = true) :
    (typing.declare (types.typed declared)).lookup name = typing.lookup name := by
  apply Typing.lookup_declare
  rw [TypeNames.map_fst_typed]
  intro isDeclared
  obtain ⟨target, member, rfl⟩ := List.mem_map.mp isDeclared
  have unmentioned := List.all_eq_true.mp apart target member
  simp [mentioned] at unmentioned

namespace Lowering

/-! ## Assignments -/

theorem Target.Means.resultCount {types : TypeNames} {target : Target} {callable : Callable}
    (means : target.Means types callable) : target.resultCount = callable.results.length := by
  cases means with
  | builtin => rfl
  | function describes =>
      rw [Callable.results, List.length_map]
      exact describes.length_results

/-- The results of a call go to several variables if there are as many of them. -/
theorem reports_assignResults (reflects : context.Reflects surroundings)
    (valued : surroundings.types.Valued) (first : Binding) (others : List Binding) (callee : String)
    (arguments : List Expression) :
    (assignResults context first others callee arguments).Reports state
      ((Expression.call callee arguments).countFaults surroundings (others.length + 1) ++
        (Expression.call callee arguments).faults surroundings state.scope.typing)
      fun _ later => later.scope = state.scope ∧ later.loops = state.loops := by
  rw [assignResults, Expression.faults, Expression.countFaults, Surroundings.results?]
  apply reports_resolved reflects callee
  case missing =>
    intro isMissing
    rw [isMissing]
    exact ⟨_, rfl⟩
  case found =>
    intro target callable isCallable means
    rw [isCallable]
    dsimp only [Option.map_some]
    rw [means.resultCount, List.length_map]
    by_cases agrees : callable.results.length = others.length + 1
    · rw [if_neg (not_not.mpr agrees), if_pos agrees, List.nil_append]
      apply Step.Reports.reserveSpills_bind
      apply Step.Reports.bind_last (reports_invoke reflects valued means arguments)
      rintro outcome later ⟨undisturbed, gives⟩
      have enough : others.length ≤ later.spills.slots.length := by
        rw [undisturbed.spills]
        exact state.le_length_slots_reserved others.length
      cases isFirst : outcome.first with
      | none =>
          have none := gives.first
          rw [isFirst, Option.map_none, eq_comm, List.head?_eq_none_iff, List.map_eq_nil_iff] at none
          rw [none] at agrees
          cases agrees
      | some value =>
          apply Step.Reports.modify_bind
          exact .of_after (after_unspill others 0 _ (by simpa using enough))
            ⟨undisturbed.scope, undisturbed.loops⟩
    · rw [if_pos agrees, if_neg agrees]
      exact .throw _ _

/-- The values of an expression go to variables if there are as many of them. -/
theorem reports_assign (reflects : context.Reflects surroundings)
    (valued : surroundings.types.Valued) (targets : List Binding) (value : Expression) :
    (assign context targets value).Reports state
      (value.sourceFaults surroundings state.scope.typing targets.length)
      fun _ later => later.scope = state.scope ∧ later.loops = state.loops := by
  match targets with
  | [] => exact .throw _ _
  | [target] =>
      rw [assign]
      apply Step.Reports.bind_last (value.reports_lower reflects valued)
      rintro result later ⟨undisturbed, -⟩
      exact .modify ⟨undisturbed.scope, undisturbed.loops⟩
  | first :: second :: others =>
      cases value with
      | call callee arguments =>
          exact reports_assignResults reflects valued first (second :: others) callee arguments
      | identifier | literal | instructionCall | instruction => exact .throw _ _

/-! ## Statements -/

/-- Whether there is a loop around a statement. -/
def Loops.isInside (loops : Loops) : Bool :=
  !loops.enclosing.isEmpty

/-- Which variables are visible, and whether there is a loop around. -/
structure State.Sees (state : State) (typing : Typing) (inLoop : Bool) : Prop where
  typing : state.scope.typing = typing
  inLoop : state.loops.isInside = inLoop

/-- What a statement leaves for those behind it. -/
structure Leaves (state : State) (typing : Typing) (later : State) : Prop where
  typing : later.scope.typing = typing
  scope : state.scope.Extends later.scope
  loops : later.loops = state.loops

theorem Leaves.refl (state : State) : Leaves state state.scope.typing state :=
  ⟨rfl, .refl _, rfl⟩

theorem Leaves.trans {middle later : State} {between typing : Typing}
    (first : Leaves state between middle) (second : Leaves middle typing later) :
    Leaves state typing later :=
  ⟨second.typing, first.scope.trans second.scope, second.loops.trans first.loops⟩

theorem Leaves.sees {later : State} {typing : Typing} (leaves : Leaves state typing later) :
    later.Sees typing state.loops.isInside :=
  ⟨leaves.typing, congrArg Loops.isInside leaves.loops⟩

theorem Leaves.undisturbed {middle later : State} {typing : Typing}
    (leaves : Leaves state typing middle) (undisturbed : Undisturbed middle later) :
    Leaves state typing later where
  typing := by rw [undisturbed.scope, leaves.typing]
  scope := by
    rw [undisturbed.scope]
    exact leaves.scope
  loops := undisturbed.loops.trans leaves.loops

/-- Where the same variables are visible, nothing is left behind. -/
theorem Leaves.of_eq {later : State} (scope : later.scope = state.scope)
    (loops : later.loops = state.loops) : Leaves state state.scope.typing later where
  typing := by rw [scope]
  scope := by
    rw [scope]
    exact .refl _
  loops := loops

/-- What is declared in a block is hidden behind it. -/
theorem Leaves.close {later : State} {typing : Typing}
    (leaves : Leaves { state with scope := state.scope.enter } typing later) :
    Leaves state state.scope.typing { later with scope := later.scope.leave } :=
  .of_eq leaves.scope.leave_eq leaves.loops

theorem Undisturbed.leaves {later : State} (undisturbed : Undisturbed state later) :
    Leaves state state.scope.typing later :=
  .of_eq undisturbed.scope undisturbed.loops

/-- Variables have been added to those that are visible. -/
structure Adds (state : State) (declared : Typing) (bindings : List Binding) (later : State) : Prop
    where
  visible : later.scope.bindings = state.scope.bindings ++ bindings
  openings : later.scope.openings = state.scope.openings
  described : bindings.map (fun binding => (binding.name, binding.type)) = declared
  loops : later.loops = state.loops

theorem Adds.leaves {declared : Typing} {bindings : List Binding} {later : State}
    (adds : Adds state declared bindings later) :
    Leaves state (state.scope.typing.declare declared) later where
  typing := by
    rw [Scope.typing_append adds.visible, adds.described]
  scope := ⟨⟨bindings, adds.visible.symm⟩, adds.openings⟩
  loops := adds.loops

/-- Variables are declared if their types are known. -/
theorem reports_declareAll (types : context.types = surroundings.types) (declared : List TypedName) :
    (declareAll context declared).Reports state
      (TypeNames.faults (declared.map TypedName.typeName)) fun bindings later =>
        Adds state (surroundings.types.typed declared) bindings later := by
  induction declared generalizing state with
  | nil => exact .pure ⟨(List.append_nil _).symm, rfl, rfl, rfl⟩
  | cons head rest ih =>
      obtain ⟨name, typeName⟩ := head
      rw [List.map_cons, TypeNames.faults_cons, declareAll, types]
      apply Step.Reports.ofExcept_bind (TypeNames.resolve_eq _ _)
      intro _
      apply Step.Reports.declare_bind
      apply Step.Reports.bind_last ih
      intro bindings later adds
      refine .pure ⟨?_, adds.openings, congrArg _ adds.described, adds.loops⟩
      rw [adds.visible]
      simp [State.declared, Scope.bind]

/-- An initialiser that mentions none of the variables it is for is read where these are not visible
yet. -/
theorem reports_declaration (reflects : context.Reflects surroundings)
    (valued : surroundings.types.Valued) (declared : List TypedName) (value : Expression)
    (apart : declared.all (fun target => !value.mentions target.name) = true) :
    ((Statement.declaration declared (some value)).lower context).Reports state
      (TypeNames.faults (declared.map TypedName.typeName) ++
        value.sourceFaults surroundings state.scope.typing declared.length)
      fun _ later =>
        Leaves state (state.scope.typing.declare (surroundings.types.typed declared)) later := by
  rw [Statement.lower]
  apply Step.Reports.bind (reports_declareAll reflects.types declared)
  intro bindings middle adds
  have length : bindings.length = declared.length := by
    have lengths := congrArg List.length adds.described
    simpa [TypeNames.typed] using lengths
  have visible := adds.leaves.typing
  rw [← Expression.sourceFaults_congr (Expression.lookup_declare apart _), ← visible, ← length]
  apply (reports_assign reflects valued bindings value).mono
  rintro _ later ⟨scope, loops⟩
  exact adds.leaves.trans (.of_eq scope loops)

theorem reports_leaveIteration (exit : LoopExit) :
    (leaveIteration exit).Reports state (exit.faults state.loops.isInside) fun _ later =>
      Leaves state state.scope.typing later := by
  rw [leaveIteration, LoopExit.faults]
  apply Step.Reports.inspect_bind
  unfold Loops.target Loops.innermost? Loops.isInside
  cases state.loops.enclosing with
  | nil =>
      have stops : (Step.ofExcept (.error (.outsideLoop exit)) : Step Ir.BlockId).Reports state
          [.outsideLoop exit] fun _ _ => False := .throw _ _
      exact stops.bind_last fun _ _ => False.elim
  | cons frame frames =>
      apply Step.Reports.of_after_bind rfl
      exact .modify (.of_eq rfl rfl)

theorem reports_lowerToCondition (reflects : context.Reflects surroundings)
    (valued : surroundings.types.Valued) (condition : Expression) {typing : Typing}
    (visible : state.scope.typing = typing) :
    (condition.lowerToCondition context).Reports state
      (condition.operandFaults surroundings typing) fun _ later => Undisturbed state later := by
  subst visible
  apply Step.Reports.bind_last (condition.reports_lower reflects valued)
  rintro value later ⟨undisturbed, -⟩
  exact .write ⟨undisturbed.scope, undisturbed.loops, undisturbed.spills⟩

/-- An expression that is lowered for what it does may give any number of values. -/
theorem reports_perform (reflects : context.Reflects surroundings)
    (valued : surroundings.types.Valued) (expression : Expression) :
    (expression.perform context).Reports state (expression.faults surroundings state.scope.typing)
      fun _ later => Undisturbed state later := by
  have evaluates (other : Expression) (single : other.countFaults surroundings 1 = []) :
      (do let _ ← other.lower context).Reports state (other.faults surroundings state.scope.typing)
        fun _ later => Undisturbed state later := by
    have operand : (other.lower context).Reports state
        (other.operandFaults surroundings state.scope.typing) _ := other.reports_lower reflects valued
    rw [Expression.operandFaults, single, List.append_nil] at operand
    apply operand.bind_last
    rintro value later ⟨undisturbed, -⟩
    exact .pure undisturbed
  cases expression with
  | call callee arguments =>
      rw [Expression.perform, Expression.faults]
      apply reports_resolved reflects callee
      case missing =>
        intro isMissing
        rw [isMissing]
        exact ⟨_, rfl⟩
      case found =>
        intro target callable isCallable means
        rw [isCallable]
        apply Step.Reports.bind_last (reports_invoke reflects valued means arguments)
        rintro outcome later ⟨undisturbed, -⟩
        exact .pure undisturbed
  | identifier name => exact evaluates (.identifier name) rfl
  | literal literal => exact evaluates (.literal literal) rfl
  | instructionCall mnemonic arguments => exact evaluates (.instructionCall mnemonic arguments) rfl
  | instruction mnemonic => exact evaluates (.instruction mnemonic) rfl

/-! ## Control flow -/

theorem reports_openBlock : openBlock.Reports state [] fun _ later => Undisturbed state later := by
  apply Step.Reports.inspect_bind
  cases state.draft.isClosed with
  | false => exact .pure (.refl state)
  | true =>
      apply Step.Reports.write_bind
      exact .modify ⟨rfl, rfl, rfl⟩

theorem reports_newBlock (label : String) :
    (newBlock label).Reports state [] fun _ later => Undisturbed state later :=
  .write ⟨rfl, rfl, rfl⟩

theorem reports_modify (edit : Ir.Draft → Ir.Draft) :
    (Step.modify edit).Reports state [] fun _ later => Undisturbed state later :=
  .modify ⟨rfl, rfl, rfl⟩

/-- Statements that are lowered wherever nothing is wrong with them. -/
def ReportsBody (context : Context) (surroundings : Surroundings) (body : List Statement) : Prop :=
  ∀ ⦃state : State⦄ ⦃typing inLoop⦄, state.Sees typing inLoop →
    (Statement.lowerEach context body).Reports state
      (Statement.eachFaults surroundings typing inLoop body) fun _ later =>
        Leaves state (Statement.declareEach surroundings.types typing body) later

theorem ReportsBody.inBlock {body : List Statement} (reports : ReportsBody context surroundings body)
    {typing : Typing} {inLoop : Bool} (sees : state.Sees typing inLoop) :
    (Step.inBlock (Statement.lowerEach context body)).Reports state
      (Statement.eachFaults surroundings typing inLoop body)
      fun _ later => Leaves state state.scope.typing later := by
  have inside : ({ state with scope := state.scope.enter } : State).Sees typing inLoop :=
    ⟨sees.typing, sees.inLoop⟩
  apply Step.Reports.inBlock
  exact (reports inside).mono fun _ later leaves => leaves.close

/-- The body of a loop is inside one. -/
theorem ReportsBody.inLoop {body : List Statement} (reports : ReportsBody context surroundings body)
    (targets : LoopFrame) :
    (Step.inLoop targets (Step.inBlock (Statement.lowerEach context body))).Reports state
      (Statement.eachFaults surroundings state.scope.typing true body)
      fun _ later => Leaves state state.scope.typing later := by
  have inside : ({ state with loops := state.loops.enter targets } : State).Sees state.scope.typing
      true := ⟨rfl, rfl⟩
  apply Step.Reports.inLoop
  apply (reports.inBlock inside).mono
  intro _ later leaves
  exact ⟨leaves.typing, leaves.scope, congrArg Loops.leave leaves.loops⟩

theorem reports_conditional (reflects : context.Reflects surroundings)
    (valued : surroundings.types.Valued) (condition : Expression) (body : List Statement)
    (reportsBody : ReportsBody context surroundings body) :
    ((Statement.conditional condition body).lower context).Reports state
      (condition.operandFaults surroundings state.scope.typing ++
        Statement.eachFaults surroundings state.scope.typing state.loops.isInside body)
      fun _ later => Leaves state state.scope.typing later := by
  rw [Statement.lower]
  apply Step.Reports.bind (reports_lowerToCondition reflects valued condition rfl)
  intro value _ evaluated
  apply Step.Reports.silent_bind (reports_newBlock "if.then")
  intro onTrue _ withThen
  apply Step.Reports.silent_bind (reports_newBlock "if.end")
  intro done _ withEnd
  apply Step.Reports.silent_bind (reports_modify _)
  intro _ entered enters
  have before := (((evaluated.trans withThen).trans withEnd).trans enters).leaves
  apply Step.Reports.bind_last (reportsBody.inBlock before.sees)
  intro _ afterBody performed
  apply (reports_modify _).mono
  intro _ later left
  rw [before.typing] at performed
  exact (before.trans performed).undisturbed left

/-- Each case of a switch gets a block if its constant is right. -/
theorem reports_newArms (scrutinee : Ir.Value) (cases : List Case) :
    (newArms scrutinee cases).Reports state (Case.constantFaults scrutinee.type cases)
      fun blocks later => Undisturbed state later ∧ blocks.arms.length = cases.length := by
  induction cases generalizing state with
  | nil => exact .pure ⟨.refl state, rfl⟩
  | cons arm rest ih =>
      obtain ⟨value, body⟩ := arm
      rw [Case.constantFaults, List.flatMap_cons]
      cases value with
      | some literal =>
          apply Step.Reports.silent_bind (reports_newBlock "switch.case")
          intro block _ made
          rw [Option.toList_some, List.flatMap_singleton]
          apply Step.Reports.ofExcept_bind (literal.valueAt_eq _)
          intro _
          apply Step.Reports.bind_last ih
          rintro blocks later ⟨others, length⟩
          exact .pure ⟨made.trans others, congrArg (· + 1) length⟩
      | none =>
          apply Step.Reports.silent_bind (reports_newBlock "switch.default")
          intro block _ made
          apply Step.Reports.bind_last ih
          rintro blocks later ⟨others, length⟩
          exact .pure ⟨made.trans others, congrArg (· + 1) length⟩

/-- The bodies of a switch are lowered one after the other, as far as there are blocks for them. -/
theorem reports_cases (cases : List Case)
    (reportsBodies : ∀ arm ∈ cases, ReportsBody context surroundings arm.body) (done : Ir.BlockId)
    {typing : Typing} {inLoop : Bool} {blocks : List Ir.BlockId} (enough : blocks.length = cases.length)
    (sees : state.Sees typing inLoop) :
    (Case.lowerEach context done cases blocks).Reports state
      (Case.eachFaults surroundings typing inLoop cases) fun _ later =>
        Leaves state state.scope.typing later := by
  induction cases generalizing blocks state with
  | nil =>
      rw [Case.lowerEach]
      · exact .pure (.refl state)
      · simp
  | cons arm rest ih =>
      obtain ⟨value, body⟩ := arm
      obtain ⟨reportsFirst, reportsRest⟩ := List.forall_mem_cons.mp reportsBodies
      cases blocks with
      | nil => cases enough
      | cons block blocks =>
          rw [Case.lowerEach, Case.eachFaults]
          apply Step.Reports.silent_bind (reports_modify _)
          intro _ entered enters
          have before := enters.leaves
          have inside : entered.Sees typing inLoop :=
            ⟨before.typing.trans sees.typing, before.sees.inLoop.trans sees.inLoop⟩
          apply Step.Reports.bind (reportsFirst.inBlock inside)
          intro _ performed performs
          apply Step.Reports.silent_bind (reports_modify _)
          intro _ left leaves
          rw [before.typing] at performs
          have first := (before.trans performs).undisturbed leaves
          have still : left.Sees typing inLoop :=
            ⟨first.typing.trans sees.typing, first.sees.inLoop.trans sees.inLoop⟩
          apply (ih reportsRest (Nat.succ.inj enough) still).mono
          intro _ later others
          rw [first.typing] at others
          exact first.trans others

theorem reports_switch (reflects : context.Reflects surroundings)
    (valued : surroundings.types.Valued) (scrutinee : Expression) (cases : List Case)
    (reportsBodies : ∀ arm ∈ cases, ReportsBody context surroundings arm.body) :
    ((Statement.switch scrutinee cases).lower context).Reports state
      (scrutinee.operandFaults surroundings state.scope.typing ++
        Case.constantFaults ((scrutinee.type? surroundings state.scope.typing).getD .void) cases ++
        Case.eachFaults surroundings state.scope.typing state.loops.isInside cases)
      fun _ later => Leaves state state.scope.typing later := by
  rw [Statement.lower, List.append_assoc]
  apply Step.Reports.bind (scrutinee.reports_lower reflects valued)
  rintro value _ ⟨evaluated, isType⟩
  rw [isType, Option.getD_some]
  apply Step.Reports.silent_bind (reports_newBlock "switch.end")
  intro done _ withEnd
  apply Step.Reports.bind (reports_newArms value cases)
  rintro blocks _ ⟨withArms, enough⟩
  apply Step.Reports.silent_bind (reports_modify _)
  intro _ closed closes
  have before := (((evaluated.trans withEnd).trans withArms).trans closes).leaves
  apply Step.Reports.bind_last (reports_cases cases reportsBodies done enough before.sees)
  intro _ performed performs
  apply (reports_modify _).mono
  intro _ later left
  rw [before.typing] at performs
  exact (before.trans performs).undisturbed left

/-- The condition, the body and the step of a loop see what has been declared at its start. -/
theorem reports_rounds (reflects : context.Reflects surroundings)
    (valued : surroundings.types.Valued) (condition : Expression) (step body : List Statement)
    (reportsStep : ReportsBody context surroundings step)
    (reportsBody : ReportsBody context surroundings body) (head : Ir.BlockId)
    (inside advance done : Ir.BlockId) {typing : Typing} {inLoop : Bool}
    (sees : state.Sees typing inLoop) :
    (loopRounds head inside advance done (condition.lowerToCondition context)
      (Statement.lowerEach context body) (Statement.lowerEach context step)).Reports state
      (condition.operandFaults surroundings typing ++
        (Statement.eachFaults surroundings typing true body ++
          Statement.eachFaults surroundings typing inLoop step))
      fun _ later => Leaves state typing later := by
  rw [loopRounds]
  obtain ⟨rfl, rfl⟩ := sees
  apply Step.Reports.silent_bind (reports_modify _)
  intro _ atHead first
  have before := first.leaves
  apply Step.Reports.bind (reports_lowerToCondition reflects valued condition before.typing)
  intro value _ evaluated
  apply Step.Reports.silent_bind (reports_modify _)
  intro _ atBody second
  have before := before.undisturbed (evaluated.trans second)
  rw [← before.typing]
  apply Step.Reports.bind (reportsBody.inLoop _)
  intro _ afterBody performed
  have before : Leaves state atBody.scope.typing afterBody := before.trans performed
  apply Step.Reports.silent_bind (reports_modify _)
  intro _ atStep third
  have before := before.undisturbed third
  apply Step.Reports.bind_last (reportsStep.inBlock before.sees)
  intro _ afterStep stepped
  rw [before.typing] at stepped
  apply (reports_modify _).mono
  intro _ later last
  exact (before.trans stepped).undisturbed last

theorem reports_loop (reflects : context.Reflects surroundings)
    (valued : surroundings.types.Valued) (init : List Statement) (condition : Expression)
    (step body : List Statement) (reportsInit : ReportsBody context surroundings init)
    (reportsStep : ReportsBody context surroundings step)
    (reportsBody : ReportsBody context surroundings body) :
    ((Statement.loop init condition step body).lower context).Reports state
      ((Statement.loop init condition step body).faults surroundings state.scope.typing
        state.loops.isInside) fun _ later => Leaves state state.scope.typing later := by
  rw [Statement.lower_loop, Statement.faults, List.append_assoc, List.append_assoc]
  apply Step.Reports.silent_bind (reports_newBlock "for.init")
  intro initBlock _ withInit
  apply Step.Reports.silent_bind (reports_modify _)
  intro _ entered enters
  have before := (withInit.trans enters).leaves
  have inside : ({ entered with scope := entered.scope.enter } : State).Sees state.scope.typing
      state.loops.isInside := ⟨before.typing, before.sees.inLoop⟩
  apply Step.Reports.inBlock
  apply Step.Reports.bind (reportsInit inside)
  intro _ afterInit initialised
  rw [withLoopBlocks]
  apply Step.Reports.silent_bind (reports_newBlock "for.cond")
  intro head _ withHead
  apply Step.Reports.silent_bind (reports_newBlock "for.body")
  intro bodyBlock _ withBody
  apply Step.Reports.silent_bind (reports_newBlock "for.post")
  intro advance _ withStep
  apply Step.Reports.silent_bind (reports_newBlock "for.exit")
  intro done made withDone
  have ready := initialised.undisturbed (((withHead.trans withBody).trans withStep).trans withDone)
  apply (reports_rounds reflects valued condition step body reportsStep reportsBody head bodyBlock
    advance done ⟨ready.typing, ready.sees.inLoop.trans inside.inLoop⟩).mono
  intro _ later goesRound
  have closed := (ready.trans goesRound).close
  rw [before.typing] at closed
  exact before.trans closed

/-! ## All statements -/

mutual

/-- A statement is lowered if nothing is wrong with it. -/
theorem reports_statement (reflects : context.Reflects surroundings)
    (valued : surroundings.types.Valued) {arity : String → Option Nat} {lenient : Bool} :
    (statement : Statement) → statement.isProper arity lenient = true → {state : State} →
    {typing : Typing} → {inLoop : Bool} → state.Sees typing inLoop →
    (statement.lower context).Reports state (statement.faults surroundings typing inLoop)
      fun _ later => Leaves state (statement.declare surroundings.types typing) later
  | .block body, proper, _, _, _, ⟨rfl, inLoop⟩ => by
      rw [Statement.isProper] at proper
      rw [Statement.lower, Statement.faults]
      exact (reports_statements reflects valued body proper).inBlock ⟨rfl, inLoop⟩
  | .declaration declared none, _, _, _, _, ⟨rfl, _⟩ => by
      rw [Statement.lower, Statement.faults]
      apply Step.Reports.bind (reports_declareAll reflects.types declared)
      intro bindings later adds
      exact .pure adds.leaves
  | .declaration declared (some value), proper, _, _, _, ⟨rfl, _⟩ => by
      simp only [Statement.isProper, Bool.and_eq_true] at proper
      exact reports_declaration reflects valued declared value proper.1
  | .assignment names value, _, _, _, _, ⟨rfl, _⟩ => by
      rw [Statement.lower, Statement.faults]
      apply Step.Reports.bind (reports_lookups names)
      rintro targets _ ⟨rfl, means⟩
      rw [means.length_eq]
      apply (reports_assign reflects valued targets value).mono
      rintro _ later ⟨scope, loops⟩
      exact .of_eq scope loops
  | .expression expression, _, _, _, _, ⟨rfl, _⟩ => by
      rw [Statement.lower, Statement.faults]
      exact (reports_perform reflects valued expression).mono fun _ _ => Undisturbed.leaves
  | .conditional condition body, proper, _, _, _, ⟨rfl, rfl⟩ => by
      simp only [Statement.isProper, Bool.and_eq_true] at proper
      exact reports_conditional reflects valued condition body
        (reports_statements reflects valued body proper.2)
  | .switch scrutinee cases, proper, _, _, _, ⟨rfl, rfl⟩ => by
      simp only [Statement.isProper, Bool.and_eq_true] at proper
      exact reports_switch reflects valued scrutinee cases
        (reports_bodies reflects valued cases proper.2)
  | .loop init condition step body, proper, _, _, _, ⟨rfl, rfl⟩ => by
      simp only [Statement.isProper, Bool.and_eq_true] at proper
      obtain ⟨⟨⟨properInit, -⟩, properStep⟩, properBody⟩ := proper
      exact reports_loop reflects valued init condition step body
        (reports_statements reflects valued init properInit)
        (reports_statements reflects valued step properStep)
        (reports_statements reflects valued body properBody)
  | .breakLoop, _, _, _, _, ⟨rfl, rfl⟩ => by
      rw [Statement.lower]
      exact reports_leaveIteration .breakLoop
  | .continueLoop, _, _, _, _, ⟨rfl, rfl⟩ => by
      rw [Statement.lower]
      exact reports_leaveIteration .continueLoop
  | .definition name _ _ _, _, _, _, _, _ => by
      rw [Statement.lower]
      exact .throw _ _
  | .label _, _, _, _, _, _ => by
      rw [Statement.lower]
      exact .throw _ _
  | .stackAssignment _, _, _, _, _, _ => by
      rw [Statement.lower]
      exact .throw _ _

theorem reports_statements (reflects : context.Reflects surroundings)
    (valued : surroundings.types.Valued) {arity : String → Option Nat} {lenient : Bool} :
    (statements : List Statement) → Statement.areProper arity lenient statements = true →
    ReportsBody context surroundings statements
  | [], _ => by
      rintro state _ _ ⟨rfl, -⟩
      rw [Statement.lowerEach]
      exact .pure (.refl state)
  | statement :: rest, proper => by
      simp only [Statement.areProper, Bool.and_eq_true] at proper
      rintro state _ _ ⟨rfl, rfl⟩
      rw [Statement.lowerEach, Statement.eachFaults]
      apply Step.Reports.silent_bind reports_openBlock
      intro _ opened opens
      apply Step.Reports.bind (reports_statement reflects valued statement proper.1 opens.leaves.sees)
      intro _ middle performed
      have first := opens.leaves.trans performed
      exact (reports_statements reflects valued rest proper.2 first.sees).mono
        fun _ _ others => first.trans others

theorem reports_bodies (reflects : context.Reflects surroundings)
    (valued : surroundings.types.Valued) {arity : String → Option Nat} {lenient : Bool} :
    (cases : List Case) → Case.areProper arity lenient cases = true →
    ∀ arm ∈ cases, ReportsBody context surroundings arm.body
  | [], _, arm, member => by cases member
  | ⟨_, body⟩ :: rest, proper, arm, member => by
      simp only [Case.areProper, Bool.and_eq_true] at proper
      rcases List.mem_cons.mp member with rfl | member
      · exact reports_statements reflects valued body proper.1
      · exact reports_bodies reflects valued rest proper.2 arm member

end

end Lowering

end YulLowering
