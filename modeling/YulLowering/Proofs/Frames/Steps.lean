import Mathlib.Order.Defs.Unbundled
import YulLowering.Lowering.Statements
import YulLowering.Proofs.Outcomes

/-!
# What a step leaves behind, however it ends

A step of a lowering may stop at any point, and then the state is the one that its last part has left. So
what relates the states before and after a step is followed along the way in which the step is put
together, whether it succeeds or fails. Code without control flow makes few kinds of changes, and a
relation that all of these respect holds across every such code.
-/

namespace YulLowering.Lowering

/-- A relation that holds across all that code without control flow does: instructions are written, spill
slots are reserved and builtins are declared. -/
class StraightLine (related : State → State → Prop) : Prop extends IsPreorder State related where
  written : ∀ state instruction,
    related state { state with draft := state.draft.write instruction }
  reserved : ∀ state count, related state (state.reserved count)
  imported : ∀ state external, related state (state.imported external)

variable {related : State → State → Prop} {context : Context}

namespace Step

/-- The states before and after a step are related, whether it succeeds or fails. -/
structure Respects {α : Type} (related : State → State → Prop) (step : Step α) : Prop where
  holds : ∀ state, related state (step.after state).2

namespace Respects

variable {α β : Type} {step : Step α}

/-- What a step respects holds where it succeeds. -/
theorem yields (respects : step.Respects related) (state : State) :
    step.Yields state fun _ later => related state later := by
  constructor
  intro result later taken
  have holds := respects.holds state
  rwa [taken] at holds

theorem mono {weaker : State → State → Prop} (respects : step.Respects related)
    (weaken : ∀ {state later}, related state later → weaker state later) : step.Respects weaker :=
  ⟨fun state => weaken (respects.holds state)⟩

theorem write {edit : Ir.Draft → α × Ir.Draft}
    (edits : ∀ state : State, related state { state with draft := (edit state.draft).2 }) :
    (Step.write edit).Respects related :=
  ⟨edits⟩

theorem modify {edit : Ir.Draft → Ir.Draft}
    (edits : ∀ state : State, related state { state with draft := edit state.draft }) :
    (Step.modify edit).Respects related :=
  write edits

/-- The scope that a step in a block of its own has opened is closed. -/
theorem inBlock
    (inside : ∀ state : State, related state
      { (step.after { state with scope := state.scope.enter }).2 with
        scope := (step.after { state with scope := state.scope.enter }).2.scope.leave }) :
    (Step.inBlock step).Respects related :=
  ⟨inside⟩

/-- The loop that a step has entered is left. -/
theorem inLoop {targets : LoopFrame}
    (inside : ∀ state : State, related state
      { (step.after { state with loops := state.loops.enter targets }).2 with
        loops := (step.after { state with loops := state.loops.enter targets }).2.loops.leave }) :
    (Step.inLoop targets step).Respects related :=
  ⟨inside⟩

variable [IsPreorder State related]

theorem pure (result : α) : (Pure.pure result : Step α).Respects related :=
  ⟨refl_of related⟩

theorem throw (fault : Fault) : (MonadExcept.throw fault : Step α).Respects related :=
  ⟨refl_of related⟩

theorem ofExcept (outcome : Except Fault α) : (Step.ofExcept outcome).Respects related :=
  ⟨refl_of related⟩

theorem inspect (look : State → α) : (Step.inspect look).Respects related :=
  ⟨refl_of related⟩

/-- Two steps in a row. If the first fails, the second is not taken. -/
theorem bind {next : α → Step β} (first : step.Respects related)
    (second : ∀ result, (next result).Respects related) : (step >>= next).Respects related := by
  constructor
  intro state
  rw [Step.after_bind]
  have before := first.holds state
  cases taken : step.after state with
  | mk outcome middle =>
      rw [taken] at before
      cases outcome with
      | error fault => exact before
      | ok result => exact trans_of related before ((second result).holds middle)

theorem ofExcept_bind {outcome : Except Fault α} {next : α → Step β}
    (second : ∀ result, (next result).Respects related) :
    (Step.ofExcept outcome >>= next).Respects related :=
  bind (ofExcept outcome) second

theorem lookup (name : String) : (Step.lookup name).Respects related := by
  apply bind (inspect _)
  intro found
  split
  · exact pure _
  · exact throw _

theorem lookups (names : List String) : (names.mapM Step.lookup).Respects related := by
  induction names with
  | nil => exact pure []
  | cons name rest ih =>
      rw [List.mapM_cons]
      exact bind (lookup name) fun _ => bind ih fun _ => pure _

theorem spill (index : Nat) : (Step.spill index).Respects related := by
  apply bind (inspect _)
  intro found
  split
  · exact pure _
  · exact bind (inspect _) fun _ => throw _

end Respects

end Step

/-! ## Code without control flow -/

namespace StraightLine

theorem respects_load [StraightLine related] (slot : Ir.Slot) (type : Ir.ValueType) :
    (Step.write fun draft => draft.load slot type).Respects related :=
  .write fun state => written state _

theorem respects_store [StraightLine related] (slot : Ir.Slot) (value : Ir.Value) :
    (Step.modify fun draft => draft.store slot value).Respects related :=
  .modify fun state => written state _

theorem respects_call [StraightLine related] (callee : Ir.Callee)
    (arguments : List Ir.Value) (type : Ir.ValueType) :
    (Step.write fun draft => draft.call callee arguments type).Respects related := by
  apply Step.Respects.write
  intro state
  rw [Ir.Draft.call_eq]
  exact written state _

theorem respects_toCondition [StraightLine related] (operand : Ir.Value) :
    (Step.write fun draft => draft.toCondition operand).Respects related := by
  apply Step.Respects.write
  intro state
  cases isBool : operand.type.isBool with
  | true =>
      rw [Ir.Draft.toCondition, if_pos isBool]
      exact refl state
  | false =>
      rw [Ir.Draft.toCondition_eq _ _ isBool]
      exact written state _

theorem respects_literal [StraightLine related] (literal : Literal) :
    (literal.lower context).Respects related := by
  apply Step.Respects.ofExcept_bind
  intro type
  apply Step.Respects.ofExcept_bind
  intro constant
  exact .write fun state => written state _

theorem respects_lowerLiterals [StraightLine related] (builtin : String) (index : Nat)
    (arguments : List Expression) :
    (Expression.lowerLiterals context builtin index arguments).Respects related := by
  fun_induction Expression.lowerLiterals context builtin index arguments with
  | case1 => exact .pure []
  | case2 index literal rest ih =>
      exact .bind (respects_literal literal) fun _ =>
        .bind ih fun _ => .pure _
  | case3 => exact .throw _

theorem respects_signature [StraightLine related] (signature : Signature)
    (arguments : List Ir.Value) : (signature.write arguments).Respects related :=
  .bind (respects_call _ _ _) fun _ => .pure _

theorem respects_writeExternal [StraightLine related] (external : Ir.External)
    (arguments : List Ir.Value) : (writeExternal external arguments).Respects related := by
  have declares : (Step.declareExternal external).Respects related :=
    ⟨fun state => imported state external⟩
  apply Step.Respects.bind declares
  intro _
  exact .bind (respects_call _ _ _) fun _ => .pure _

theorem respects_invokeWith [StraightLine related] (target : Target)
    (arguments : List Expression) {evaluate : Step (List Ir.Value)}
    (evaluates : evaluate.Respects related) :
    (target.invokeWith context arguments evaluate).Respects related := by
  cases target with
  | function signature =>
      exact .bind evaluates fun _ => respects_signature signature _
  | builtin descriptor =>
      apply Step.Respects.ofExcept_bind
      intro external
      have writes (values : List Ir.Value) : (writeExternal external values).Respects related :=
        respects_writeExternal external values
      dsimp only
      split
      · exact .bind (respects_lowerLiterals descriptor.name 0 arguments) writes
      · exact .bind evaluates writes

mutual

theorem respects_lower [StraightLine related] : (expression : Expression) →
    (expression.lower context).Respects related
  | .identifier name => by
      rw [Expression.lower]
      exact .bind (.lookup name) fun _ =>
        respects_load _ _
  | .literal literal => by
      rw [Expression.lower]
      exact respects_literal literal
  | .call callee arguments => by
      rw [Expression.lower]
      apply Step.Respects.ofExcept_bind
      intro target
      exact .bind
        (respects_invokeWith target arguments (respects_lowerEach arguments))
        fun _ => .ofExcept _
  | .instructionCall mnemonic _ => by
      rw [Expression.lower]
      exact .throw _
  | .instruction mnemonic => by
      rw [Expression.lower]
      exact .throw _

theorem respects_lowerEach [StraightLine related] : (arguments : List Expression) →
    (Expression.lowerEach context arguments).Respects related
  | [] => by
      rw [Expression.lowerEach]
      exact .pure []
  | argument :: rest => by
      rw [Expression.lowerEach]
      exact .bind (respects_lower argument) fun _ =>
        .bind (respects_lowerEach rest) fun _ =>
          .pure _

end

theorem respects_invoke [StraightLine related] (target : Target)
    (arguments : List Expression) : (target.invoke context arguments).Respects related :=
  respects_invokeWith target arguments (respects_lowerEach arguments)

theorem respects_perform [StraightLine related] (expression : Expression) :
    (expression.perform context).Respects related := by
  unfold Expression.perform
  split
  · next callee arguments =>
    apply Step.Respects.ofExcept_bind
    intro target
    exact .bind (respects_invoke target arguments) fun _ =>
      .pure ()
  · exact .bind (respects_lower _) fun _ => .pure ()

theorem respects_lowerToCondition [StraightLine related] (expression : Expression) :
    (expression.lowerToCondition context).Respects related :=
  .bind (respects_lower expression) fun _ =>
    respects_toCondition _

theorem respects_unspill [StraightLine related] (index : Nat) (targets : List Binding) :
    (unspill index targets).Respects related := by
  induction targets generalizing index with
  | nil => exact .pure ()
  | cons target rest ih =>
      exact .bind (.spill index) fun _ =>
        .bind (respects_load _ _) fun _ =>
          .bind (respects_store _ _) fun _ => ih (index + 1)

/-- The results of a call go to variables, if there are any. -/
theorem respects_receive [StraightLine related] (outcome : CallOutcome) (first : Binding)
    (others : List Binding) (fault : Fault) :
    (match outcome.first with
      | none => throw fault
      | some value => do
        Step.modify fun draft => draft.store (.ofLocal first.slot) value
        unspill 0 others : Step Unit).Respects related := by
  cases outcome.first with
  | none => exact .throw fault
  | some value => exact .bind (respects_store _ _) fun _ => respects_unspill 0 others

theorem respects_assignResults [StraightLine related] (first : Binding)
    (others : List Binding) (callee : String) (arguments : List Expression) :
    (assignResults context first others callee arguments).Respects related := by
  apply Step.Respects.ofExcept_bind
  intro target
  have reserves : (Step.reserveSpills (others.length + 1 - 1)).Respects related :=
    ⟨fun state => reserved state _⟩
  dsimp only
  split
  · exact .bind (.throw _) fun _ =>
      .bind reserves fun _ =>
        .bind (respects_invoke target arguments) fun outcome =>
          respects_receive outcome first others _
  · exact .bind reserves fun _ =>
      .bind (respects_invoke target arguments) fun outcome =>
        respects_receive outcome first others _

theorem respects_assign [StraightLine related] (targets : List Binding)
    (value : Expression) : (assign context targets value).Respects related := by
  fun_cases assign context targets value with
  | case1 => exact .throw _
  | case2 target value =>
      exact .bind (respects_lower value) fun _ =>
        respects_store _ _
  | case3 first others callee arguments =>
      exact respects_assignResults first others callee arguments
  | case4 => exact .throw _

end StraightLine

end YulLowering.Lowering
