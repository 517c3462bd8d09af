import YulLowering.Proofs.Loops
import YulLowering.Proofs.Renaming.Matching

/-!
# Statements under different names of variables

Expressions and statements that differ in the names of variables are lowered alike. A declaration makes its
variables visible in front of its initialiser already; where that mentions none of them, its names mean what
they have meant before.
-/

namespace YulLowering.Lowering

variable {context : Context} {visible : Renaming}

/-! ## Expressions -/

theorem renamed_literal (visible : Renaming) (literal : Literal) :
    Step.Renamed visible visible Eq (literal.lower context) (literal.lower context) := by
  apply Step.Renamed.ofExcept_bind
  intro type
  apply Step.Renamed.ofExcept_bind
  intro constant
  exact .write fun _ => rfl

/-- Arguments of a builtin that takes literals only hold no variables. -/
theorem renamed_lowerLiterals (builtin : String) : {arguments others : List Expression} →
    Expression.RenamedEach visible arguments others → (index : Nat) →
    Step.Renamed visible visible Eq (Expression.lowerLiterals context builtin index arguments)
      (Expression.lowerLiterals context builtin index others)
  | _, _, .nil, _ => .pure rfl
  | _, _, .cons (.literal literal) each, index => by
      apply (renamed_literal visible literal).bind
      rintro value _ rfl
      apply (renamed_lowerLiterals builtin each (index + 1)).bind
      rintro values _ rfl
      exact .pure rfl
  | _, _, .cons (.identifier _) _, _ => .throw _ _ _ _ _
  | _, _, .cons (.call _ _) _, _ => .throw _ _ _ _ _
  | _, _, .cons (.instructionCall _ _) _, _ => .throw _ _ _ _ _
  | _, _, .cons (.instruction _) _, _ => .throw _ _ _ _ _

theorem renamed_writeExternal (external : Ir.External) (values : List Ir.Value) :
    Step.Renamed visible visible Eq (writeExternal external values) (writeExternal external values) := by
  apply (Step.Renamed.declareExternal visible external).bind
  intro _ _ _
  apply Step.Renamed.write_bind (Ir.Draft.natural_call _ _ _)
  intro first
  exact .pure rfl

theorem renamed_invokeWith (target : Target) {arguments others : List Expression}
    {evaluate otherEvaluate : Step (List Ir.Value)}
    (each : Expression.RenamedEach visible arguments others)
    (evaluates : Step.Renamed visible visible Eq evaluate otherEvaluate) :
    Step.Renamed visible visible Eq (target.invokeWith context arguments evaluate)
      (target.invokeWith context others otherEvaluate) := by
  cases target with
  | function signature =>
      apply evaluates.bind
      rintro values _ rfl
      apply Step.Renamed.write_bind (Ir.Draft.natural_call _ _ _)
      intro first
      exact .pure rfl
  | builtin builtin =>
      apply Step.Renamed.ofExcept_bind
      intro external
      split
      · apply (renamed_lowerLiterals builtin.name each 0).bind
        rintro values _ rfl
        exact renamed_writeExternal external values
      · apply evaluates.bind
        rintro values _ rfl
        exact renamed_writeExternal external values

mutual

theorem renamed_lower : {expression other : Expression} → expression.Renamed visible other →
    Step.Renamed visible visible Eq (expression.lower context) (other.lower context)
  | _, _, .identifier means => by
      rw [Expression.lower, Expression.lower]
      apply (Step.Renamed.lookup means).bind
      intro binding otherBinding same
      rw [same.slot, same.type]
      exact .write fun _ => rfl
  | _, _, .literal literal => by
      rw [Expression.lower]
      exact renamed_literal visible literal
  | _, _, .call callee each => by
      rw [Expression.lower, Expression.lower]
      apply Step.Renamed.ofExcept_bind
      intro target
      apply (renamed_invokeWith target each (renamed_lowerEach each)).bind
      rintro outcome _ rfl
      exact .ofExcept visible _
  | _, _, .instructionCall mnemonic _ => by
      rw [Expression.lower, Expression.lower]
      exact .throw _ _ _ _ _
  | _, _, .instruction mnemonic => by
      rw [Expression.lower]
      exact .throw _ _ _ _ _

theorem renamed_lowerEach : {arguments others : List Expression} →
    Expression.RenamedEach visible arguments others →
    Step.Renamed visible visible Eq (Expression.lowerEach context arguments)
      (Expression.lowerEach context others)
  | _, _, .nil => by
      rw [Expression.lowerEach]
      exact .pure rfl
  | _, _, .cons first each => by
      rw [Expression.lowerEach, Expression.lowerEach]
      apply (renamed_lower first).bind
      rintro value _ rfl
      apply (renamed_lowerEach each).bind
      rintro values _ rfl
      exact .pure rfl

end

theorem renamed_lowerToCondition {expression other : Expression}
    (renamed : expression.Renamed visible other) :
    Step.Renamed visible visible Eq (expression.lowerToCondition context)
      (other.lowerToCondition context) := by
  apply (renamed_lower renamed).bind
  rintro value _ rfl
  exact .write (Ir.Draft.natural_toCondition value)

theorem renamed_perform {expression other : Expression} (renamed : expression.Renamed visible other) :
    Step.Renamed visible visible Eq (expression.perform context) (other.perform context) := by
  have evaluates : Step.Renamed visible visible Eq (expression.lower context) (other.lower context) :=
    renamed_lower renamed
  cases renamed with
  | call callee each =>
      apply Step.Renamed.ofExcept_bind
      intro target
      apply (renamed_invokeWith target each (renamed_lowerEach each)).bind
      rintro outcome _ rfl
      exact .pure rfl
  | identifier | literal | instructionCall | instruction =>
      apply evaluates.bind
      rintro value _ rfl
      exact .pure rfl

/-! ## Assignments -/

theorem renamed_unspill {targets others : List Binding}
    (same : List.Forall₂ Binding.Same targets others) (index : Nat) :
    Step.Renamed visible visible Eq (unspill index targets) (unspill index others) := by
  induction same generalizing index with
  | nil => exact .pure rfl
  | cons first _ ih =>
      apply (Step.Renamed.spill visible index).bind
      rintro slot _ rfl
      rw [first.slot, first.type]
      apply Step.Renamed.write_bind fun _ => rfl
      intro value
      exact .modify_bind (fun _ => rfl) (ih (index + 1))

theorem renamed_assignResults {first otherFirst : Binding} {targets others : List Binding}
    (sameFirst : first.Same otherFirst) (same : List.Forall₂ Binding.Same targets others)
    (callee : String) {arguments otherArguments : List Expression}
    (each : Expression.RenamedEach visible arguments otherArguments) :
    Step.Renamed visible visible Eq (assignResults context first targets callee arguments)
      (assignResults context otherFirst others callee otherArguments) := by
  unfold assignResults
  rw [same.length_eq]
  apply Step.Renamed.ofExcept_bind
  intro target
  dsimp only
  split
  · exact .throw _ _ _ _ _
  · apply (Step.Renamed.reserveSpills visible _).bind
    intro _ _ _
    apply (renamed_invokeWith target each (renamed_lowerEach each)).bind
    rintro outcome _ rfl
    cases outcome.first with
    | none => exact .throw _ _ _ _ _
    | some value =>
        rw [sameFirst.slot]
        exact .modify_bind (fun _ => rfl) (renamed_unspill same 0)

theorem renamed_assign {targets others : List Binding}
    (same : List.Forall₂ Binding.Same targets others) {value other : Expression}
    (renamed : value.Renamed visible other) :
    Step.Renamed visible visible Eq (assign context targets value) (assign context others other) := by
  cases same with
  | nil => exact .throw _ _ _ _ _
  | cons first rest =>
      cases rest with
      | nil =>
          rw [assign, assign, first.slot]
          apply (renamed_lower renamed).bind
          rintro result _ rfl
          exact .modify fun _ => rfl
      | cons second rest =>
          cases renamed with
          | call callee each => exact renamed_assignResults first (.cons second rest) callee each
          | identifier | literal | instructionCall | instruction => exact .throw _ _ _ _ _

/-! ## Declarations -/

theorem renamed_declareAll : {declared others : List TypedName} →
    TypedName.SameTypes declared others → {visible : Renaming} →
    Step.Renamed visible (visible.declare declared others) (List.Forall₂ Binding.Same)
      (declareAll context declared) (declareAll context others)
  | [], [], _, _ => .pure .nil
  | ⟨name, typeName⟩ :: rest, ⟨otherName, otherTypeName⟩ :: others, sameTypes, visible => by
      obtain ⟨rfl, sameRest⟩ := List.cons_eq_cons.mp sameTypes
      apply Step.Renamed.ofExcept_bind
      intro type
      apply (Step.Renamed.declare name otherName type).bind
      rintro slot _ rfl
      apply (renamed_declareAll sameRest).bind
      intro bindings otherBindings same
      exact .pure (.cons rfl same)

/-! ## Moving on -/

theorem renamed_newBlock (visible : Renaming) (label : String) :
    Step.Renamed visible visible Eq (newBlock label) (newBlock label) :=
  .write fun _ => rfl

theorem renamed_openBlock (visible : Renaming) :
    Step.Renamed visible visible Eq openBlock openBlock := by
  apply (Step.Renamed.isClosed visible).bind
  rintro isClosed _ rfl
  split
  · apply (renamed_newBlock visible "unreachable").bind
    rintro block _ rfl
    exact .modify fun _ => rfl
  · exact .pure rfl

theorem renamed_leaveIteration (visible : Renaming) (exit : LoopExit) :
    Step.Renamed visible visible Eq (leaveIteration exit) (leaveIteration exit) := by
  apply (Step.Renamed.inspect fun renamed => renamed.loops).bind
  rintro loops _ rfl
  apply Step.Renamed.ofExcept_bind
  intro target
  exact .modify fun _ => rfl

theorem renamed_newArms (scrutinee : Ir.Value) : {cases others : List Case} →
    Case.RenamedEach visible cases others →
    Step.Renamed visible visible Eq (newArms scrutinee cases) (newArms scrutinee others)
  | _, _, .nil _ => .pure rfl
  | _, _, .cons (some literal) _ each => by
      apply (renamed_newBlock visible "switch.case").bind
      rintro block _ rfl
      apply Step.Renamed.ofExcept_bind
      intro constant
      apply (renamed_newArms scrutinee each).bind
      rintro blocks _ rfl
      exact .pure rfl
  | _, _, .cons none _ each => by
      apply (renamed_newBlock visible "switch.default").bind
      rintro block _ rfl
      apply (renamed_newArms scrutinee each).bind
      rintro blocks _ rfl
      exact .pure rfl

/-! ## Structured statements -/

/-- The rounds of a loop, if the condition, the body and the step are lowered alike. -/
theorem renamed_rounds {afterBody afterStep : Renaming} (head body step done : Ir.BlockId)
    {condition other : Step Ir.Value} {inside otherInside advance otherAdvance : Step Unit}
    (conditions : Step.Renamed visible visible Eq condition other)
    (performs : Step.Renamed visible afterBody Eq inside otherInside)
    (advances : Step.Renamed visible afterStep Eq advance otherAdvance) :
    Step.Renamed visible visible Eq (loopRounds head body step done condition inside advance)
      (loopRounds head body step done other otherInside otherAdvance) := by
  rw [loopRounds, loopRounds]
  have falls (target next : Ir.BlockId) (draft : Ir.Draft) :
      (draft.anonymous.fallThrough target).moveTo next =
        ((draft.fallThrough target).moveTo next).anonymous := by
    rw [Ir.Draft.anonymous_fallThrough]
    rfl
  refine .modify_bind (falls head head) ?_
  apply conditions.bind
  rintro value _ rfl
  refine .modify_bind (fun _ => rfl) ?_
  apply (performs.inBlock.inLoop ⟨done, step⟩).bind
  intro _ _ _
  refine .modify_bind (falls step step) ?_
  apply advances.inBlock.bind
  intro _ _ _
  exact .modify (falls head done)

section

variable {begun inner after : Renaming} {condition other : Expression}
  {init otherInit step otherStep body otherBody : List Statement}

/-- Statements that are lowered alike. -/
abbrev RenamedBody (context : Context) (visible later : Renaming) (statements others : List Statement) :
    Prop :=
  Step.Renamed visible later Eq (Statement.lowerEach context statements)
    (Statement.lowerEach context others)

theorem renamed_conditional (conditions : Expression.Renamed visible condition other)
    (performs : RenamedBody context visible inner body otherBody) :
    Step.Renamed visible visible Eq ((Statement.conditional condition body).lower context)
      ((Statement.conditional other otherBody).lower context) := by
  rw [Statement.lower, Statement.lower]
  apply (renamed_lowerToCondition conditions).bind
  rintro value _ rfl
  apply (renamed_newBlock visible "if.then").bind
  rintro onTrue _ rfl
  apply (renamed_newBlock visible "if.end").bind
  rintro done _ rfl
  refine .modify_bind (fun _ => rfl) ?_
  apply performs.inBlock.bind
  intro _ _ _
  exact .modify fun draft => by rw [Ir.Draft.anonymous_fallThrough]; rfl

theorem renamed_switch {scrutinee other : Expression} {cases others : List Case}
    (scrutinees : Expression.Renamed visible scrutinee other)
    (arms : Case.RenamedEach visible cases others)
    (performs : ∀ done blocks, Step.Renamed visible visible Eq
      (Case.lowerEach context done cases blocks) (Case.lowerEach context done others blocks)) :
    Step.Renamed visible visible Eq ((Statement.switch scrutinee cases).lower context)
      ((Statement.switch other others).lower context) := by
  rw [Statement.lower, Statement.lower]
  apply (renamed_lower scrutinees).bind
  rintro value _ rfl
  apply (renamed_newBlock visible "switch.end").bind
  rintro done _ rfl
  apply (renamed_newArms value arms).bind
  rintro blocks _ rfl
  refine .modify_bind (fun _ => rfl) ?_
  apply (performs done blocks.arms).bind
  intro _ _ _
  exact .modify fun _ => rfl

theorem renamed_loop (begins : RenamedBody context visible begun init otherInit)
    (conditions : Expression.Renamed begun condition other)
    (advances : RenamedBody context begun after step otherStep)
    (performs : RenamedBody context begun inner body otherBody) :
    Step.Renamed visible visible Eq ((Statement.loop init condition step body).lower context)
      ((Statement.loop otherInit other otherStep otherBody).lower context) := by
  rw [Statement.lower_loop, Statement.lower_loop]
  apply (renamed_newBlock visible "for.init").bind
  rintro initBlock _ rfl
  refine .modify_bind (fun _ => rfl) ?_
  apply Step.Renamed.inBlock
  apply begins.bind
  intro _ _ _
  rw [withLoopBlocks, withLoopBlocks]
  apply (renamed_newBlock _ "for.cond").bind
  rintro conditionBlock _ rfl
  apply (renamed_newBlock _ "for.body").bind
  rintro bodyBlock _ rfl
  apply (renamed_newBlock _ "for.post").bind
  rintro stepBlock _ rfl
  apply (renamed_newBlock _ "for.exit").bind
  rintro done _ rfl
  exact renamed_rounds _ _ _ _ (renamed_lowerToCondition conditions) performs advances

end

/-! ## Statements -/

/-- Whether no initialiser in the statements reads a name that its own declaration introduces. -/
abbrev Apart (statements : List Statement) : Prop :=
  Statement.areProper (fun _ => none) true statements = true

mutual

theorem renamed_statement {visible later : Renaming} : {statement other : Statement} →
    Statement.Renamed visible statement other later →
    statement.isProper (fun _ => none) true = true → other.isProper (fun _ => none) true = true →
    Step.Renamed visible later Eq (statement.lower context) (other.lower context)
  | _, _, .block inside, apart, otherApart => by
      rw [Statement.lower, Statement.lower]
      exact .inBlock (renamed_statements inside apart otherApart)
  | _, _, .declaration sameTypes, _, _ => by
      rw [Statement.lower, Statement.lower]
      apply (renamed_declareAll sameTypes).bind
      intro _ _ _
      exact .pure rfl
  | _, _, .initialised sameTypes values, apart, otherApart => by
      simp only [Statement.isProper, Bool.and_eq_true, List.all_eq_true, Bool.not_eq_eq_eq_not,
        Bool.not_true] at apart otherApart
      rw [Statement.lower, Statement.lower]
      apply (renamed_declareAll sameTypes).bind
      intro targets others same
      exact renamed_assign same (values.declare apart.1 otherApart.1)
  | _, _, .assignment means values, _, _ => by
      rw [Statement.lower, Statement.lower]
      apply (Step.Renamed.lookups means).bind
      intro targets others same
      exact renamed_assign same values
  | _, _, .expression expressions, _, _ => by
      rw [Statement.lower, Statement.lower]
      exact renamed_perform expressions
  | _, _, .conditional conditions inside, apart, otherApart => by
      simp only [Statement.isProper, Bool.and_eq_true] at apart otherApart
      exact renamed_conditional conditions (renamed_statements inside apart.2 otherApart.2)
  | _, _, .switch scrutinees arms, apart, otherApart => by
      simp only [Statement.isProper, Bool.and_eq_true] at apart otherApart
      exact renamed_switch scrutinees arms (renamed_arms arms apart.2 otherApart.2)
  | _, _, .loop begins conditions advances inside, apart, otherApart => by
      simp only [Statement.isProper, Bool.and_eq_true] at apart otherApart
      obtain ⟨⟨⟨apartInit, -⟩, apartStep⟩, apartBody⟩ := apart
      obtain ⟨⟨⟨otherInit, -⟩, otherStep⟩, otherBody⟩ := otherApart
      exact renamed_loop (renamed_statements begins apartInit otherInit) conditions
        (renamed_statements advances apartStep otherStep) (renamed_statements inside apartBody otherBody)
  | _, _, .breakLoop _, _, _ => by
      rw [Statement.lower]
      exact renamed_leaveIteration _ .breakLoop
  | _, _, .continueLoop _, _, _ => by
      rw [Statement.lower]
      exact renamed_leaveIteration _ .continueLoop
  | _, _, .definition _ _ _ _, _, _ => by
      rw [Statement.lower, Statement.lower]
      exact .throw _ _ _ _ _
  | _, _, .label _, _, _ => by
      rw [Statement.lower]
      exact .throw _ _ _ _ _
  | _, _, .stackAssignment _, _, _ => by
      rw [Statement.lower, Statement.lower]
      exact .throw _ _ _ _ _

theorem renamed_statements {visible later : Renaming} : {statements others : List Statement} →
    Statement.RenamedEach visible statements others later → Apart statements → Apart others →
    RenamedBody context visible later statements others
  | _, _, .nil _, _, _ => by
      rw [RenamedBody, Statement.lowerEach]
      exact .pure rfl
  | _, _, .cons first each, apart, otherApart => by
      simp only [Apart, Statement.areProper, Bool.and_eq_true] at apart otherApart
      rw [RenamedBody, Statement.lowerEach, Statement.lowerEach]
      apply (renamed_openBlock visible).bind
      intro _ _ _
      apply (renamed_statement first apart.1 otherApart.1).bind
      intro _ _ _
      exact renamed_statements each apart.2 otherApart.2

theorem renamed_arms {visible : Renaming} : {cases others : List Case} →
    Case.RenamedEach visible cases others → Case.areProper (fun _ => none) true cases = true →
    Case.areProper (fun _ => none) true others = true → (done : Ir.BlockId) →
    (blocks : List Ir.BlockId) →
    Step.Renamed visible visible Eq (Case.lowerEach context done cases blocks)
      (Case.lowerEach context done others blocks)
  | _, _, .nil _, _, _, done, blocks => by
      rw [Case.lowerEach]
      · exact .pure rfl
      · rintro _ _ _ _ _ ⟨⟩
  | _, _, .cons value inside each, _, _, done, [] => by
      rw [Case.lowerEach, Case.lowerEach]
      · exact .pure rfl
      · rintro _ _ _ _ _ _ ⟨⟩
      · rintro _ _ _ _ _ _ ⟨⟩
  | _, _, .cons value inside each, apart, otherApart, done, block :: blocks => by
      simp only [Case.areProper, Bool.and_eq_true] at apart otherApart
      rw [Case.lowerEach, Case.lowerEach]
      refine .modify_bind (fun _ => rfl) ?_
      apply (renamed_statements inside apart.1 otherApart.1).inBlock.bind
      intro _ _ _
      refine .modify_bind (fun draft => Ir.Draft.anonymous_fallThrough draft done) ?_
      exact renamed_arms each apart.2 otherApart.2 done blocks

end

end YulLowering.Lowering
