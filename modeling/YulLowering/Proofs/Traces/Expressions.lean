import YulLowering.Proofs.Frames.Steps
import YulLowering.Proofs.Traces.Edits

/-!
# Traces of expressions and assignments

Lowering an expression answers each call in it, the calls in its arguments first. The arguments of a builtin
that takes literals only hold no calls and become constants.
-/

namespace YulLowering.Lowering

variable {context : Context} {state : State}

/-- A step that, wherever it is taken, answers given events. -/
def Step.Traces {α : Type} (context : Context) (events : List Event) (step : Step α) : Prop :=
  ∀ ⦃state : State⦄, state.draft.Anchored →
    step.Yields state fun _ later => Trace context events state later

namespace Step.Traces

variable {α β : Type} {step : Step α} {events more : List Event}

theorem pure (result : α) : Step.Traces context [] (Pure.pure result) :=
  fun state _ => .pure (.refl state)

theorem throw (fault : Fault) (events : List Event) :
    Step.Traces context events (MonadExcept.throw fault : Step α) :=
  fun _ _ => .throw fault

theorem ofExcept (outcome : Except Fault α) : Step.Traces context [] (Step.ofExcept outcome) :=
  fun state _ => .ofExcept fun _ _ => .refl state

/-- Two steps in a row. -/
theorem bind {next : α → Step β} (first : step.Traces context events)
    (second : ∀ result, (next result).Traces context more) :
    (step >>= next).Traces context (events ++ more) := by
  intro state anchored
  apply Step.Yields.bind (first anchored)
  intro result middle trace
  apply (second result (trace.anchored anchored)).mono
  intro _ later rest
  exact trace.trans rest

/-- A step that answers nothing comes first. -/
theorem silent_bind {next : α → Step β} (first : step.Traces context [])
    (second : ∀ result, (next result).Traces context more) : (step >>= next).Traces context more :=
  first.bind second

/-- A step that answers nothing comes last. -/
theorem bind_silent {next : α → Step β} (first : step.Traces context events)
    (second : ∀ result, (next result).Traces context []) :
    (step >>= next).Traces context events := by
  have whole := first.bind second
  rwa [List.append_nil] at whole

theorem ofExcept_bind {outcome : Except Fault α} {next : α → Step β}
    (second : ∀ result, outcome = .ok result → (next result).Traces context events) :
    (Step.ofExcept outcome >>= next).Traces context events :=
  fun _ anchored => .ofExcept_bind fun result isOk => second result isOk anchored

theorem reserveSpills_bind {count : Nat} {next : Unit → Step β}
    (second : (next ()).Traces context events) :
    (Step.reserveSpills count >>= next).Traces context events := by
  intro state anchored
  apply Step.Yields.reserveSpills_bind
  have reserves : Trace context [] state (state.reserved count) :=
    .of_quiet (.of_eq anchored rfl rfl (fun pooled => State.pooled_reserved pooled count)
      (state.name_reserved count) (state.functions_reserved count) (state.externals_reserved count))
  have still : (state.reserved count).draft.Anchored := anchored
  apply (second still).mono
  intro _ later rest
  exact reserves.trans rest

theorem inspect (read : State → α) : (Step.inspect read).Traces context [] :=
  fun state _ => .of_after rfl (.refl state)

theorem lookup (name : String) : (Step.lookup name).Traces context [] := by
  rw [Step.lookup]
  apply silent_bind (inspect _)
  intro found
  cases found with
  | none => exact throw _ _
  | some binding => exact pure binding

/-- An instruction that is no call and touches no shared slot. -/
theorem write {edit : Ir.Draft → α × Ir.Draft}
    (edits : ∀ draft, ∃ instruction : Ir.Instruction, (edit draft).2 = draft.write instruction ∧
      instruction.call? = none ∧ instruction.globals = []) :
    (Step.write edit).Traces context [] := by
  intro state anchored
  apply Step.Yields.write
  obtain ⟨instruction, written, plain, own⟩ := edits state.draft
  rw [written]
  exact (Edit.write instruction plain own).trace

theorem const (type : Ir.ValueType) (constant : Nat) :
    (Step.write fun draft => draft.const type constant).Traces context [] :=
  write fun _ => ⟨_, rfl, rfl, rfl⟩

theorem load (slot : Ir.LocalId) (type : Ir.ValueType) :
    (Step.write fun draft => draft.load (.ofLocal slot) type).Traces context [] :=
  write fun _ => ⟨_, rfl, rfl, rfl⟩

theorem store (slot : Ir.LocalId) (value : Ir.Value) :
    (Step.modify fun draft => draft.store (.ofLocal slot) value).Traces context [] :=
  write fun _ => ⟨_, rfl, rfl, rfl⟩

end Step.Traces

/-! ## Expressions -/

/-- A literal becomes a constant. -/
theorem yields_literal (literal : Literal) (anchored : state.draft.Anchored) :
    (literal.lower context).Yields state fun value later =>
      Trace context [] state later ∧
        Denotes later.draft.function.instructions (.literal literal) value := by
  apply Step.Yields.ofExcept_bind
  intro type _
  apply Step.Yields.ofExcept_bind
  intro constant fits
  apply Step.Yields.write
  refine ⟨(Edit.write (.const (state.draft.next type) constant) rfl rfl).trace, literal, constant, rfl,
    (Literal.valueAt_eq_ok_iff.mp fits).1, ?_⟩
  exact (Ir.Draft.instructions_write anchored _).mem_iff.mpr
    (List.mem_append_right _ List.mem_cons_self)

/-- The arguments of a builtin that takes literals only become constants. -/
theorem yields_lowerLiterals (builtin : String) (arguments : List Expression) (index : Nat)
    (anchored : state.draft.Anchored) :
    (Expression.lowerLiterals context builtin index arguments).Yields state fun values later =>
      Trace context (Expression.eventsOfEach arguments) state later ∧
        List.Forall₂ (Denotes later.draft.function.instructions) arguments values := by
  induction arguments generalizing index state with
  | nil => exact .pure ⟨.refl state, .nil⟩
  | cons argument rest ih =>
      cases argument with
      | literal written =>
          apply Step.Yields.bind (yields_literal written anchored)
          rintro value middle ⟨first, denotes⟩
          have still := first.anchored anchored
          apply Step.Yields.bind (ih (index + 1) still)
          rintro values later ⟨others, denote⟩
          exact .pure ⟨first.trans others, .cons (denotes.mono (others.instructions still)) denote⟩
      | identifier | call | instructionCall | instruction => exact .throw _

theorem traces_signature_write (call : Call) {signature : Signature}
    (resolved : context.resolveCall call.callee = .ok (.function signature))
    (values : List Ir.Value) : (signature.write values).Traces context [.called call] := by
  intro state _
  apply Step.Yields.write_bind
  apply Step.Yields.pure
  rw [Ir.Draft.call_eq]
  exact (Edit.callFunction call signature values resolved).trace

theorem yields_writeExternal (call : Call) {builtin : Builtin} {external : Ir.External}
    (resolved : context.resolveCall call.callee = .ok (.builtin builtin))
    (isExternal : context.external builtin = .ok external) (values : List Ir.Value)
    (literals : builtin.literalArguments = true →
      List.Forall₂ (Denotes state.draft.function.instructions) call.arguments values) :
    (writeExternal external values).Yields state fun _ later =>
      Trace context [.called call] state later := by
  apply Step.Yields.declareExternal_bind
  apply Step.Yields.write_bind
  apply Step.Yields.pure
  rw [Ir.Draft.call_eq]
  exact (Edit.callBuiltin call builtin external values resolved isExternal literals).trace

/-- A call is written behind the calls in its arguments. -/
theorem traces_invokeWith {name : String} {target : Target} {arguments : List Expression}
    {evaluate : Step (List Ir.Value)} (resolved : context.resolveCall name = .ok target)
    (evaluates : evaluate.Traces context (Expression.eventsOfEach arguments)) :
    (target.invokeWith context arguments evaluate).Traces context
      (Expression.eventsOfEach arguments ++ [.called ⟨name, arguments⟩]) := by
  cases target with
  | function signature =>
      exact evaluates.bind fun values => traces_signature_write ⟨name, arguments⟩ resolved values
  | builtin builtin =>
      intro state anchored
      apply Step.Yields.ofExcept_bind
      intro external isExternal
      split
      · apply Step.Yields.bind (yields_lowerLiterals builtin.name arguments 0 anchored)
        rintro values middle ⟨trace, denote⟩
        apply (yields_writeExternal ⟨name, arguments⟩ resolved isExternal values
          fun _ => denote).mono
        intro _ later calls
        exact trace.trans calls
      · next free =>
        apply Step.Yields.bind (evaluates anchored)
        intro values middle trace
        apply (yields_writeExternal ⟨name, arguments⟩ resolved isExternal values
          fun taken => absurd taken free).mono
        intro _ later calls
        exact trace.trans calls

mutual

/-- An expression answers its calls. -/
theorem traces_lower : (expression : Expression) →
    (expression.lower context).Traces context expression.events
  | .identifier name => by
      rw [Expression.lower, Expression.events]
      apply Step.Traces.silent_bind (.lookup name)
      intro binding
      exact .load _ _
  | .literal literal => by
      rw [Expression.lower, Expression.events]
      exact fun _ anchored => (yields_literal literal anchored).mono fun _ _ => And.left
  | .call callee arguments => by
      rw [Expression.lower, Expression.events]
      apply Step.Traces.ofExcept_bind
      intro target resolved
      apply Step.Traces.bind_silent (traces_invokeWith resolved (traces_lowerEach arguments))
      intro outcome
      exact .ofExcept _
  | .instructionCall mnemonic _ => by
      rw [Expression.lower]
      exact .throw _ _
  | .instruction mnemonic => by
      rw [Expression.lower]
      exact .throw _ _

theorem traces_lowerEach : (arguments : List Expression) →
    (Expression.lowerEach context arguments).Traces context (Expression.eventsOfEach arguments)
  | [] => by
      rw [Expression.lowerEach, Expression.eventsOfEach]
      exact .pure []
  | argument :: rest => by
      rw [Expression.lowerEach, Expression.eventsOfEach]
      apply (traces_lower argument).bind
      intro value
      apply Step.Traces.bind_silent (traces_lowerEach rest)
      intro values
      exact .pure _

end

theorem traces_lowerToCondition (expression : Expression) :
    (expression.lowerToCondition context).Traces context expression.events := by
  apply Step.Traces.bind_silent (traces_lower expression)
  intro value state anchored
  apply Step.Yields.write
  cases isBool : value.type.isBool with
  | true =>
      rw [Ir.Draft.toCondition, if_pos isBool]
      exact .refl state
  | false =>
      rw [Ir.Draft.toCondition_eq _ _ isBool]
      exact (Edit.write _ rfl rfl).trace

theorem traces_perform (expression : Expression) :
    (expression.perform context).Traces context expression.events := by
  have evaluates : (expression.lower context).Traces context expression.events :=
    traces_lower expression
  cases expression with
  | call callee arguments =>
      rw [Expression.events]
      apply Step.Traces.ofExcept_bind
      intro target resolved
      apply Step.Traces.bind_silent (traces_invokeWith resolved (traces_lowerEach arguments))
      intro outcome
      exact .pure ()
  | identifier | literal | instructionCall | instruction =>
      apply evaluates.bind_silent
      intro value
      exact .pure ()

/-! ## Assignments -/

/-- No variable has been declared or hidden, and no spill slot has been given up. -/
structure State.Steady (state later : State) : Prop where
  scope : later.scope = state.scope
  locals : later.draft.function.locals = state.draft.function.locals
  slots : state.spills.slots.length ≤ later.spills.slots.length

/-- Code without control flow is steady. -/
instance : StraightLine State.Steady where
  refl _ := ⟨rfl, rfl, Nat.le_refl _⟩
  trans _ _ _ first second :=
    ⟨second.scope.trans first.scope, second.locals.trans first.locals, first.slots.trans second.slots⟩
  written _ _ := ⟨rfl, rfl, Nat.le_refl _⟩
  reserved state count := ⟨rfl, rfl, by rw [length_slots_reserved]; exact Nat.le_max_left _ _⟩
  imported _ _ := ⟨rfl, rfl, Nat.le_refl _⟩

theorem State.Steady.aims {later : State} (steady : state.Steady later) {targets : Targets}
    {bindings : List Binding} (aims : state.Aims targets bindings) : later.Aims targets bindings := by
  cases targets with
  | latest count =>
      unfold State.Aims
      rw [steady.locals]
      exact aims
  | named names =>
      unfold State.Aims
      rw [steady.scope]
      exact aims

/-- Several variables are given the values of a call of a function with as many results. -/
theorem yields_assignResults {targets : Targets} {first : Binding} {others : List Binding}
    (callee : String) (arguments : List Expression) (several : others ≠ [])
    (aims : state.Aims targets (first :: others)) (anchored : state.draft.Anchored) :
    (assignResults context first others callee arguments).Yields state fun _ later =>
      Trace context (Expression.eventsOfEach arguments ++
        [.called ⟨callee, arguments⟩, .received targets (.call callee arguments)]) state later := by
  apply Step.Yields.ofExcept_bind
  intro target resolved
  dsimp only
  split
  · exact .bind (.throw _) fun _ _ impossible => impossible
  · next agrees =>
    have count : target.resultCount = others.length + 1 := Decidable.not_not.mp agrees
    apply Step.Yields.reserveSpills_bind
    have reserves : Trace context [] state (state.reserved others.length) :=
      .of_quiet (.of_eq anchored rfl rfl (fun pooled => State.pooled_reserved pooled _)
        (state.name_reserved _) (state.functions_reserved _) (state.externals_reserved _))
    have still : (state.reserved others.length).draft.Anchored := anchored
    cases target with
    | builtin builtin =>
        -- A builtin that can be declared has at most one result, and there are two variables or more.
        rw [Target.invoke, Target.invokeWith, bind_assoc]
        apply Step.Yields.ofExcept_bind
        intro external isExternal
        have few := length_results_le_of_external isExternal
        have positive := List.length_pos_iff.mpr several
        simp only [Target.resultCount] at count
        omega
    | function signature =>
        rw [Target.invoke, Target.invokeWith, bind_assoc]
        have keeps : (Expression.lowerEach context arguments).Respects State.Steady :=
          StraightLine.respects_lowerEach arguments
        apply Step.Yields.bind ((traces_lowerEach arguments still).and (keeps.yields _))
        rintro values middle ⟨evaluates, steady⟩
        have enough : others.length ≤ middle.spills.slots.length :=
          (state.le_length_slots_reserved others.length).trans steady.slots
        have before := reserves.trans evaluates
        cases hasResult : middle.draft.callResult signature.resultType with
        | none =>
            rw [Signature.write, bind_assoc]
            apply Step.Yields.write_bind
            rw [Ir.Draft.call_eq, hasResult]
            exact .throw _
        | some result =>
            refine .of_after (after_receive signature values first others middle hasResult enough _) ?_
            exact before.trans (Edit.receive ⟨callee, arguments⟩ targets signature result values first
              others resolved count several hasResult enough (steady.aims aims)).trace

/-- Variables are given the values of an expression. -/
theorem yields_assign {aim : Targets} {targets : List Binding} (value : Expression)
    (aims : state.Aims aim targets) (anchored : state.draft.Anchored) :
    (assign context targets value).Yields state fun _ later =>
      Trace context (value.events ++ [.received aim value]) state later := by
  unfold assign
  split
  · exact .throw _
  · next target =>
    have few : aim.count < 2 := by
      rw [← aims.length_eq]
      exact Nat.one_lt_two
    have stores : Step.Traces context value.events (do
        let result ← value.lower context
        Step.modify fun draft => draft.store (.ofLocal target.slot) result) :=
      (traces_lower value).bind_silent fun result => .store _ _
    apply (stores anchored).mono
    intro _ later trace
    exact trace.trans (Edit.receiveOne aim value few).trace
  · next first others callee arguments several =>
    rw [Expression.events, List.append_assoc]
    exact yields_assignResults callee arguments several aims anchored
  · exact .throw _

end YulLowering.Lowering
