import YulLowering.Proofs.Loops
import YulLowering.Proofs.Programs
import YulLowering.Proofs.Refusals.Faults
import YulLowering.Proofs.Settings

/-!
# Lowering a body fails only for reasons of its own

Where all builtins of the dialect can be declared, a call of one gives no reason to fail but those that lie in
its arguments. What is left are reasons that lie in the program, and each unknown type is one that is written
in it.
-/

namespace YulLowering

open Lowering

variable {context : Context} {names : List String}

/-! ## Types and literals -/

namespace Lowering

theorem TypeNames.own_resolve (types : TypeNames) {name : String} (written : name ∈ names) :
    FailsOnly (types.resolve name) (Fault.Own names) := by
  unfold resolve
  cases isEmpty : name.isEmpty with
  | true => exact .ok _
  | false =>
      have nonempty : name ≠ "" := by
        rintro rfl
        cases isEmpty
      cases catalog.lookup name with
      | none => exact .error ⟨nonempty, written⟩
      | some type => exact .ok type

theorem TypeNames.own_resolveAll (types : TypeNames) {several : List String}
    (written : several ⊆ names) : FailsOnly (types.resolveAll several) (Fault.Own names) := by
  unfold resolveAll
  induction several with
  | nil => exact .ok []
  | cons name rest ih =>
      obtain ⟨head, tail⟩ := List.cons_subset.mp written
      rw [List.mapM_cons]
      apply FailsOnly.bind (types.own_resolve head)
      intro type _
      apply FailsOnly.bind (ih tail)
      intro resolved _
      exact .ok _

theorem Context.own_literalType (context : Context) {literal : Literal}
    (written : literal.typeName ∈ names) : FailsOnly (context.literalType literal) (Fault.Own names) := by
  unfold literalType
  split
  · exact .ok _
  · exact context.types.own_resolve written

end Lowering

theorem Literal.own_valueAt (literal : Literal) (type : Ir.ValueType) :
    FailsOnly (literal.valueAt type) (Fault.Own names) := by
  unfold Literal.valueAt
  cases literal.value? with
  | none => exact .error trivial
  | some value =>
      dsimp only
      split
      · exact .ok value
      · exact .error trivial

theorem Literal.own_lower (context : Context) {literal : Literal} (written : literal.typeName ∈ names) :
    (literal.lower context).FailsOnly (Fault.Own names) := by
  rw [Literal.lower]
  apply Step.FailsOnly.bind (.ofExcept (context.own_literalType written))
  intro type
  apply Step.FailsOnly.bind (.ofExcept (literal.own_valueAt type))
  intro constant
  exact .write _

/-! ## Calls -/

namespace Lowering

theorem Context.own_resolveCall (context : Context) (callee : String) :
    FailsOnly (context.resolveCall callee) (Fault.Own names) := by
  unfold resolveCall
  cases context.dialect.lookup callee with
  | some builtin => exact .ok _
  | none =>
      cases context.signatures.lookup callee with
      | some signature => exact .ok _
      | none => exact .error trivial

/-- What a name has been resolved to can be declared if it is a builtin. -/
def Target.Usable (target : Target) : Prop :=
  ∀ builtin, target = .builtin builtin → builtin.Usable

theorem usable_of_resolveCall (usable : context.dialect.Usable) {callee : String} {target : Target}
    (resolved : context.resolveCall callee = .ok target) : target.Usable := by
  rintro builtin rfl
  exact usable builtin (Dialect.mem_of_lookup (lookup_of_resolveCall resolved)).1

theorem CallOutcome.own_single (outcome : CallOutcome) : FailsOnly outcome.single (Fault.Own names) := by
  unfold single
  cases outcome.first with
  | none => exact .error trivial
  | some value =>
      dsimp only
      split
      · exact .ok value
      · exact .error trivial

theorem Signature.own_write (signature : Signature) (arguments : List Ir.Value) :
    (signature.write arguments).FailsOnly (Fault.Own names) := by
  rw [Signature.write]
  apply Step.FailsOnly.write_bind
  intro first
  exact .pure _

theorem own_writeExternal (external : Ir.External) (arguments : List Ir.Value) :
    (writeExternal external arguments).FailsOnly (Fault.Own names) := by
  rw [writeExternal]
  apply Step.FailsOnly.bind (.declareExternal external)
  intro _
  apply Step.FailsOnly.write_bind
  intro first
  exact .pure _

end Lowering

theorem Expression.own_lowerLiterals (context : Context) (builtin : String) (index : Nat)
    {arguments : List Expression} (written : Expression.typeNamesOfEach arguments ⊆ names) :
    (Expression.lowerLiterals context builtin index arguments).FailsOnly (Fault.Own names) := by
  induction arguments generalizing index with
  | nil => exact .pure []
  | cons argument rest ih =>
      obtain ⟨head, tail⟩ := List.append_subset.mp written
      cases argument with
      | literal literal =>
          rw [Expression.lowerLiterals]
          apply Step.FailsOnly.bind (Literal.own_lower context (head (List.mem_singleton_self _)))
          intro value
          apply Step.FailsOnly.bind (ih (index + 1) tail)
          intro values
          exact .pure _
      | identifier | call | instructionCall | instruction => exact .throw trivial

/-- A builtin that can be declared is no reason to fail. -/
theorem Lowering.Target.own_invokeWith {target : Target} (usable : target.Usable)
    {arguments : List Expression} (written : Expression.typeNamesOfEach arguments ⊆ names)
    {evaluate : Step (List Ir.Value)} (evaluates : evaluate.FailsOnly (Fault.Own names)) :
    (target.invokeWith context arguments evaluate).FailsOnly (Fault.Own names) := by
  cases target with
  | function signature =>
      apply Step.FailsOnly.bind evaluates
      intro values
      exact signature.own_write values
  | builtin descriptor =>
      obtain ⟨external, isExternal⟩ := (usable descriptor rfl).exists_external context
      rw [invokeWith, isExternal]
      apply Step.FailsOnly.bind (.ofExcept (.ok external))
      intro external
      dsimp only
      split
      · apply Step.FailsOnly.bind (Expression.own_lowerLiterals context descriptor.name 0 written)
        intro values
        exact own_writeExternal external values
      · apply Step.FailsOnly.bind evaluates
        intro values
        exact own_writeExternal external values

/-! ## Expressions -/

mutual

theorem Expression.own_lower (usable : context.dialect.Usable) :
    ∀ expression : Expression, expression.typeNames ⊆ names →
      (expression.lower context).FailsOnly (Fault.Own names)
  | .identifier name, _ => by
      rw [Expression.lower]
      apply Step.FailsOnly.bind (.lookup trivial)
      intro binding
      exact .write _
  | .literal constant, written => by
      rw [Expression.lower]
      exact Literal.own_lower context (written (List.mem_singleton_self _))
  | .call callee arguments, written => by
      rw [Expression.lower]
      apply Step.FailsOnly.ofExcept_bind (context.own_resolveCall callee)
      intro target resolved
      have evaluates := Expression.own_lowerEach usable arguments written
      apply Step.FailsOnly.bind (Target.own_invokeWith (usable_of_resolveCall usable resolved) written evaluates)
      intro outcome
      exact .ofExcept outcome.own_single
  | .instructionCall mnemonic arguments, _ => .throw trivial
  | .instruction mnemonic, _ => .throw trivial

theorem Expression.own_lowerEach (usable : context.dialect.Usable) :
    ∀ arguments : List Expression, Expression.typeNamesOfEach arguments ⊆ names →
      (Expression.lowerEach context arguments).FailsOnly (Fault.Own names)
  | [], _ => .pure []
  | argument :: rest, written => by
      obtain ⟨head, tail⟩ := List.append_subset.mp written
      rw [Expression.lowerEach]
      apply Step.FailsOnly.bind (Expression.own_lower usable argument head)
      intro value
      apply Step.FailsOnly.bind (Expression.own_lowerEach usable rest tail)
      intro values
      exact .pure _

end

theorem Lowering.Target.own_invoke (dialectUsable : context.dialect.Usable) {target : Target}
    (usable : target.Usable) {arguments : List Expression}
    (written : Expression.typeNamesOfEach arguments ⊆ names) :
    (target.invoke context arguments).FailsOnly (Fault.Own names) :=
  Target.own_invokeWith usable written (Expression.own_lowerEach dialectUsable arguments written)

namespace Expression

variable {expression : Expression}

theorem own_perform (usable : context.dialect.Usable) (written : expression.typeNames ⊆ names) :
    (expression.perform context).FailsOnly (Fault.Own names) := by
  cases expression with
  | call callee arguments =>
      apply Step.FailsOnly.ofExcept_bind (context.own_resolveCall callee)
      intro target resolved
      apply Step.FailsOnly.bind (Target.own_invoke usable (usable_of_resolveCall usable resolved) written)
      intro _
      exact .pure ()
  | identifier | literal | instructionCall | instruction =>
      apply Step.FailsOnly.bind (Expression.own_lower usable _ written)
      intro _
      exact .pure ()

theorem own_lowerToCondition (usable : context.dialect.Usable) (written : expression.typeNames ⊆ names) :
    (expression.lowerToCondition context).FailsOnly (Fault.Own names) := by
  apply Step.FailsOnly.bind (Expression.own_lower usable expression written)
  intro value
  exact .write _

end Expression

/-! ## Statements -/

namespace Lowering

theorem own_openBlock : openBlock.FailsOnly (Fault.Own names) := by
  apply Step.FailsOnly.bind (.inspect _)
  rintro (_ | _)
  · exact .pure ()
  · apply Step.FailsOnly.write_bind
    intro block
    exact .modify _

theorem own_leaveIteration (exit : LoopExit) : (leaveIteration exit).FailsOnly (Fault.Own names) := by
  have own_target (loops : Loops) : FailsOnly (loops.target exit) (Fault.Own names) := by
    unfold Loops.target
    cases loops.innermost? with
    | none => exact .error trivial
    | some targets => exact .ok _
  apply Step.FailsOnly.bind (.inspect _)
  intro loops
  apply Step.FailsOnly.bind (.ofExcept (own_target loops))
  intro target
  exact .modify _

theorem own_declareAll (context : Context) {declared : List TypedName}
    (written : declared.map TypedName.typeName ⊆ names) :
    (declareAll context declared).FailsOnly (Fault.Own names) := by
  induction declared with
  | nil => exact .pure []
  | cons target rest ih =>
      obtain ⟨head, tail⟩ := List.cons_subset.mp written
      apply Step.FailsOnly.bind (.ofExcept (context.types.own_resolve head))
      intro type
      apply Step.FailsOnly.bind (.declare _ _)
      intro slot
      apply Step.FailsOnly.bind (ih tail)
      intro bindings
      exact .pure _

theorem own_unspill (index : Nat) (targets : List Binding) :
    (unspill index targets).FailsOnly (Fault.Own names) := by
  induction targets generalizing index with
  | nil => exact .pure ()
  | cons target rest ih =>
      apply Step.FailsOnly.bind (.spill fun _ => trivial)
      intro slot
      apply Step.FailsOnly.write_bind
      intro value
      apply Step.FailsOnly.modify_bind
      exact ih (index + 1)

theorem own_assignResults (usable : context.dialect.Usable) (first : Binding) (others : List Binding)
    (callee : String) {arguments : List Expression}
    (written : Expression.typeNamesOfEach arguments ⊆ names) :
    (assignResults context first others callee arguments).FailsOnly (Fault.Own names) := by
  rw [assignResults]
  apply Step.FailsOnly.ofExcept_bind (context.own_resolveCall callee)
  intro target resolved
  dsimp only
  split
  · exact .throw_bind trivial
  · apply Step.FailsOnly.bind (.reserveSpills _)
    intro _
    apply Step.FailsOnly.bind (Target.own_invoke usable (usable_of_resolveCall usable resolved) written)
    intro outcome
    cases outcome.first with
    | none => exact .throw trivial
    | some value =>
        apply Step.FailsOnly.modify_bind
        exact own_unspill 0 others

theorem own_assign (usable : context.dialect.Usable) (targets : List Binding) {value : Expression}
    (written : value.typeNames ⊆ names) : (assign context targets value).FailsOnly (Fault.Own names) := by
  match targets with
  | [] => exact .throw trivial
  | [target] =>
      apply Step.FailsOnly.bind (Expression.own_lower usable value written)
      intro result
      exact .modify _
  | first :: second :: others =>
      cases value with
      | call callee arguments => exact own_assignResults usable first (second :: others) callee written
      | identifier | literal | instructionCall | instruction => exact .throw trivial

theorem own_newArms (scrutinee : Ir.Value) (cases : List Case) :
    (newArms scrutinee cases).FailsOnly (Fault.Own names) := by
  induction cases with
  | nil => exact .pure _
  | cons arm rest ih =>
      obtain ⟨_ | literal, body⟩ := arm
      · apply Step.FailsOnly.write_bind
        intro block
        apply Step.FailsOnly.bind ih
        intro blocks
        exact .pure _
      · apply Step.FailsOnly.write_bind
        intro block
        apply Step.FailsOnly.bind (.ofExcept (literal.own_valueAt _))
        intro constant
        apply Step.FailsOnly.bind ih
        intro blocks
        exact .pure _

theorem own_loopRounds (head body step done : Ir.BlockId) {condition : Step Ir.Value}
    {inside advance : Step Unit} (conditions : condition.FailsOnly (Fault.Own names))
    (performs : inside.FailsOnly (Fault.Own names)) (advances : advance.FailsOnly (Fault.Own names)) :
    (loopRounds head body step done condition inside advance).FailsOnly (Fault.Own names) := by
  rw [loopRounds]
  apply Step.FailsOnly.modify_bind
  apply Step.FailsOnly.bind conditions
  intro value
  apply Step.FailsOnly.modify_bind
  apply Step.FailsOnly.bind (.inLoop _ (.inBlock performs))
  intro _
  apply Step.FailsOnly.modify_bind
  apply Step.FailsOnly.bind (.inBlock advances)
  intro _
  exact .modify _

end Lowering

namespace Statement

theorem own_conditional (usable : context.dialect.Usable) {condition : Expression}
    {body : List Statement} (written : condition.typeNames ⊆ names)
    (performs : (lowerEach context body).FailsOnly (Fault.Own names)) :
    ((conditional condition body).lower context).FailsOnly (Fault.Own names) := by
  rw [lower]
  apply Step.FailsOnly.bind (Expression.own_lowerToCondition usable written)
  intro value
  apply Step.FailsOnly.write_bind
  intro onTrue
  apply Step.FailsOnly.write_bind
  intro done
  apply Step.FailsOnly.modify_bind
  apply Step.FailsOnly.bind (.inBlock performs)
  intro _
  exact .modify _

theorem own_switch (usable : context.dialect.Usable) {scrutinee : Expression} {cases : List Case}
    (written : scrutinee.typeNames ⊆ names)
    (performs : ∀ done blocks, (Case.lowerEach context done cases blocks).FailsOnly (Fault.Own names)) :
    ((switch scrutinee cases).lower context).FailsOnly (Fault.Own names) := by
  rw [lower]
  apply Step.FailsOnly.bind (Expression.own_lower usable scrutinee written)
  intro value
  apply Step.FailsOnly.write_bind
  intro done
  apply Step.FailsOnly.bind (own_newArms value cases)
  intro blocks
  apply Step.FailsOnly.modify_bind
  apply Step.FailsOnly.bind (performs done blocks.arms)
  intro _
  exact .modify _

theorem own_loop (usable : context.dialect.Usable) {init : List Statement} {condition : Expression}
    {step body : List Statement} (written : condition.typeNames ⊆ names)
    (begins : (lowerEach context init).FailsOnly (Fault.Own names))
    (advances : (lowerEach context step).FailsOnly (Fault.Own names))
    (performs : (lowerEach context body).FailsOnly (Fault.Own names)) :
    ((loop init condition step body).lower context).FailsOnly (Fault.Own names) := by
  rw [lower_loop]
  apply Step.FailsOnly.write_bind
  intro initBlock
  apply Step.FailsOnly.modify_bind
  apply Step.FailsOnly.inBlock
  apply Step.FailsOnly.bind begins
  intro _
  rw [withLoopBlocks]
  apply Step.FailsOnly.write_bind
  intro head
  apply Step.FailsOnly.write_bind
  intro bodyBlock
  apply Step.FailsOnly.write_bind
  intro stepBlock
  apply Step.FailsOnly.write_bind
  intro done
  exact own_loopRounds head bodyBlock stepBlock done (Expression.own_lowerToCondition usable written)
    performs advances

end Statement

mutual

theorem Statement.own_lower (usable : context.dialect.Usable) :
    ∀ statement : Statement, statement.typeNames ⊆ names →
      (statement.lower context).FailsOnly (Fault.Own names)
  | .block body, written => by
      rw [Statement.lower]
      exact .inBlock (Statement.own_lowerEach usable body written)
  | .declaration declared none, written => by
      rw [Statement.lower]
      apply Step.FailsOnly.bind (own_declareAll context written)
      intro targets
      exact .pure ()
  | .declaration declared (some value), written => by
      obtain ⟨inDeclared, inValue⟩ := List.append_subset.mp written
      rw [Statement.lower]
      apply Step.FailsOnly.bind (own_declareAll context inDeclared)
      intro targets
      exact own_assign usable targets inValue
  | .assignment targets value, written => by
      rw [Statement.lower]
      apply Step.FailsOnly.bind (.lookups fun _ _ => trivial)
      intro bindings
      exact own_assign usable bindings written
  | .expression expression, written => by
      rw [Statement.lower]
      exact Expression.own_perform usable written
  | .conditional condition body, written => by
      obtain ⟨inCondition, inBody⟩ := List.append_subset.mp written
      exact Statement.own_conditional usable inCondition (Statement.own_lowerEach usable body inBody)
  | .switch scrutinee cases, written => by
      obtain ⟨inScrutinee, inCases⟩ := List.append_subset.mp written
      exact Statement.own_switch usable inScrutinee fun done blocks =>
        Case.own_lowerEach usable done cases blocks inCases
  | .loop init condition step body, written => by
      obtain ⟨inFront, inBody⟩ := List.append_subset.mp written
      obtain ⟨inFront, inStep⟩ := List.append_subset.mp inFront
      obtain ⟨inInit, inCondition⟩ := List.append_subset.mp inFront
      exact Statement.own_loop usable inCondition (Statement.own_lowerEach usable init inInit)
        (Statement.own_lowerEach usable step inStep) (Statement.own_lowerEach usable body inBody)
  | .breakLoop, _ => by
      rw [Statement.lower]
      exact own_leaveIteration .breakLoop
  | .continueLoop, _ => by
      rw [Statement.lower]
      exact own_leaveIteration .continueLoop
  | .definition _ _ _ _, _ => .throw trivial
  | .label _, _ => .throw trivial
  | .stackAssignment _, _ => .throw trivial

theorem Statement.own_lowerEach (usable : context.dialect.Usable) :
    ∀ statements : List Statement, Statement.typeNamesOfEach statements ⊆ names →
      (Statement.lowerEach context statements).FailsOnly (Fault.Own names)
  | [], _ => .pure ()
  | statement :: rest, written => by
      obtain ⟨head, tail⟩ := List.append_subset.mp written
      rw [Statement.lowerEach]
      apply Step.FailsOnly.bind own_openBlock
      intro _
      apply Step.FailsOnly.bind (Statement.own_lower usable statement head)
      intro _
      exact Statement.own_lowerEach usable rest tail

theorem Case.own_lowerEach (usable : context.dialect.Usable) (done : Ir.BlockId) :
    ∀ (cases : List Case) (blocks : List Ir.BlockId), Case.typeNamesOfEach cases ⊆ names →
      (Case.lowerEach context done cases blocks).FailsOnly (Fault.Own names)
  | [], _, _ => .pure ()
  | ⟨_, _⟩ :: _, [], _ => .pure ()
  | ⟨value, body⟩ :: rest, block :: blocks, written => by
      obtain ⟨inArm, inRest⟩ := List.append_subset.mp written
      obtain ⟨_, inBody⟩ := List.append_subset.mp inArm
      rw [Case.lowerEach]
      apply Step.FailsOnly.modify_bind
      apply Step.FailsOnly.bind (.inBlock (Statement.own_lowerEach usable body inBody))
      intro _
      apply Step.FailsOnly.modify_bind
      exact Case.own_lowerEach usable done rest blocks inRest

end

end YulLowering
