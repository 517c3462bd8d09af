import YulLowering.Proofs.Typing.Code
import YulLowering.Proofs.Violations.Statements

/-!
# Well-typed expressions and assignments become well-typed code

Values have the types that the source tells, so arguments fit what is called and results fit the variables
they go to.
-/

namespace YulLowering.Lowering

variable {context : Context} {surroundings : Surroundings} {state : State}

/-! ## Calls -/

theorem carried?_callResult (draft : Ir.Draft) (type : Ir.ValueType) :
    (draft.callResult type).map Ir.Value.type = type.carried? := by
  unfold Ir.Draft.callResult Ir.ValueType.carried?
  split <;> rfl

/-- The first of several types that have values is carried as itself. -/
theorem carried?_head? {types : List Ir.ValueType} (valued : ∀ type ∈ types, type ≠ .void) :
    (types.head?.getD .void).carried? = types.head? := by
  cases types with
  | nil => rfl
  | cons type rest =>
      have isValued := valued type List.mem_cons_self
      simp [Ir.ValueType.carried?, Ir.ValueType.isVoid, isValued]

theorem map_type_of_agree {values : List Ir.Value} {types : List Ir.ValueType}
    (agree : values.map (some ·.type) = types.map some) : values.map Ir.Value.type = types := by
  have same : (values.map Ir.Value.type).map some = types.map some := by
    rw [List.map_map]
    exact agree
  exact List.map_injective_iff.mpr (Option.some_injective _) same

theorem wellTyped_write {name : String} {signature : Signature}
    (resolved : context.resolveCall name = .ok (.function signature)) {values : List Ir.Value}
    (agree : values.map Ir.Value.type = signature.parameters) (typed : state.WellTyped context) :
    (signature.write values).Yields state fun _ later => later.WellTyped context := by
  apply Step.Yields.write_bind
  apply Step.Yields.pure
  rw [Ir.Draft.call_eq]
  exact typed.write rfl ⟨_, ⟨signature, mem_of_resolveCall resolved, rfl, rfl⟩, agree,
    carried?_callResult _ _⟩

theorem wellTyped_writeExternal {name : String} {builtin : Builtin} {external : Ir.External}
    (resolved : context.resolveCall name = .ok (.builtin builtin))
    (isExternal : context.external builtin = .ok external) {values : List Ir.Value}
    (agree : values.map Ir.Value.type = external.parameters) (typed : state.WellTyped context) :
    (writeExternal external values).Yields state fun _ later => later.WellTyped context := by
  obtain ⟨declared, found⟩ := typed.imported resolved isExternal
  apply Step.Yields.declareExternal_bind
  apply Step.Yields.write_bind
  apply Step.Yields.pure
  rw [Ir.Draft.call_eq]
  exact declared.write rfl ⟨_, ⟨external, found, rfl⟩, agree, carried?_callResult _ _⟩

theorem wellTyped_literal (literal : Literal) (typed : state.WellTyped context) :
    (literal.lower context).Yields state fun _ later => later.WellTyped context := by
  apply Step.Yields.ofExcept_bind
  intro type _
  apply Step.Yields.ofExcept_bind
  intro constant _
  exact .write (typed.write rfl trivial)

theorem wellTyped_lowerLiterals (builtin : String) (index : Nat) (arguments : List Expression)
    (typed : state.WellTyped context) :
    (Expression.lowerLiterals context builtin index arguments).Yields state
      fun _ later => later.WellTyped context := by
  induction arguments generalizing state index with
  | nil => exact .pure typed
  | cons argument rest ih =>
      cases argument with
      | literal written =>
          apply Step.Yields.bind (wellTyped_literal written typed)
          intro value middle typed
          apply Step.Yields.bind (ih (index + 1) typed)
          intro values later typed
          exact .pure typed
      | identifier | call | instructionCall | instruction => exact .throw _

/-- A call is well typed if its arguments are, and if they have the types that are asked for. -/
theorem wellTyped_invokeWith (reflects : context.Reflects surroundings) {name : String}
    {target : Target} {callable : Callable} (resolved : context.resolveCall name = .ok target)
    (means : target.Means surroundings.types callable) {arguments : List Expression}
    {typing : Typing}
    (agree : arguments.map (·.type? surroundings typing) =
      (callable.parameters.map surroundings.types.meaning).map some)
    {evaluate : Step (List Ir.Value)}
    (evaluates : evaluate.Yields state fun values later => later.WellTyped context ∧
      arguments.map (·.type? surroundings typing) = values.map (some ·.type))
    (typed : state.WellTyped context) :
    (target.invokeWith context arguments evaluate).Yields state
      fun _ later => later.WellTyped context := by
  cases means with
  | @function index definition signature describes =>
      apply Step.Yields.bind evaluates
      rintro values middle ⟨typed, areTypes⟩
      rw [agree, Callable.parameters, TypeNames.map_meaning_of_resolveAll describes.parameters]
        at areTypes
      exact wellTyped_write resolved (map_type_of_agree areTypes.symm) typed
  | builtin descriptor =>
      apply Step.Yields.ofExcept_bind
      intro external isExternal
      obtain ⟨-, -, parameters, -⟩ := external_inv isExternal
      rw [reflects.types] at parameters
      have writes {values : List Ir.Value} {middle : State} (typed : middle.WellTyped context)
          (areTypes : arguments.map (·.type? surroundings typing) = values.map (some ·.type)) :
          (writeExternal external values).Yields middle fun _ later => later.WellTyped context := by
        rw [agree, Callable.parameters, TypeNames.map_meaning_of_resolveAll parameters] at areTypes
        exact wellTyped_writeExternal resolved isExternal (map_type_of_agree areTypes.symm) typed
      split
      · apply Step.Yields.bind ((wellTyped_lowerLiterals _ 0 arguments typed).and
          (Expression.reports_lowerLiterals reflects _ 0 arguments).yields)
        rintro values middle ⟨typed, -, areTypes⟩
        exact writes typed (areTypes typing)
      · apply Step.Yields.bind evaluates
        rintro values middle ⟨typed, areTypes⟩
        exact writes typed areTypes

/-- A call of a name whose parameters have the types of the arguments, with what is done with its outcome. -/
theorem wellTyped_call (reflects : context.Reflects surroundings) {callee : String}
    {arguments : List Expression} {typing : Typing}
    (agree : (surroundings.parameters? callee).map (List.map some) =
      some (arguments.map (·.type? surroundings typing)))
    {evaluate : Step (List Ir.Value)}
    (evaluates : evaluate.Yields state fun values later => later.WellTyped context ∧
      arguments.map (·.type? surroundings typing) = values.map (some ·.type))
    (typed : state.WellTyped context) {α : Type} {next : CallOutcome → Step α}
    (goesOn : ∀ {outcome later}, later.WellTyped context →
      (next outcome).Yields later fun _ last => last.WellTyped context) :
    (Step.ofExcept (context.resolveCall callee) >>= fun target =>
      target.invokeWith context arguments evaluate >>= next).Yields state
        fun _ later => later.WellTyped context := by
  apply Step.Yields.ofExcept_bind
  intro target resolved
  obtain ⟨callable, isCallable, means⟩ := reflects.callable_of_resolveCall resolved
  rw [Surroundings.parameters?, isCallable, Option.map_some, Option.map_some, Option.some_inj] at agree
  apply Step.Yields.bind (wellTyped_invokeWith reflects resolved means agree.symm evaluates typed)
  intro outcome later typed
  exact goesOn typed

/-! ## Expressions -/

mutual

theorem wellTyped_lower (reflects : context.Reflects surroundings)
    (valued : surroundings.types.Valued) : (expression : Expression) → {state : State} →
    expression.isWellTyped surroundings state.scope.typing = true → state.WellTyped context →
    (expression.lower context).Yields state fun _ later => later.WellTyped context
  | .identifier name, state, _, typed => by
      rw [Expression.lower]
      apply Step.Yields.lookup_bind
      intro binding found
      exact .write (typed.write rfl trivial)
  | .literal written, state, _, typed => by
      rw [Expression.lower]
      exact wellTyped_literal written typed
  | .call callee arguments, state, wellTyped, typed => by
      simp only [Expression.isWellTyped, Bool.and_eq_true, beq_iff_eq] at wellTyped
      obtain ⟨argumentsTyped, agree⟩ := wellTyped
      rw [Expression.lower]
      have evaluates := wellTyped_lowerEach reflects valued arguments argumentsTyped typed
      exact wellTyped_call reflects agree evaluates typed fun typed => .ofExcept fun _ _ => typed
  | .instructionCall mnemonic _, _, _, _ => by
      rw [Expression.lower]
      exact .throw _
  | .instruction mnemonic, _, _, _ => by
      rw [Expression.lower]
      exact .throw _

theorem wellTyped_lowerEach (reflects : context.Reflects surroundings)
    (valued : surroundings.types.Valued) : (arguments : List Expression) → {state : State} →
    Expression.areWellTyped surroundings state.scope.typing arguments = true →
    state.WellTyped context →
    (Expression.lowerEach context arguments).Yields state fun values later =>
      later.WellTyped context ∧
        arguments.map (·.type? surroundings state.scope.typing) = values.map (some ·.type)
  | [], state, _, typed => by
      rw [Expression.lowerEach]
      exact .pure ⟨typed, rfl⟩
  | argument :: rest, state, wellTyped, typed => by
      simp only [Expression.areWellTyped, Bool.and_eq_true] at wellTyped
      rw [Expression.lowerEach]
      apply Step.Yields.bind ((wellTyped_lower reflects valued argument wellTyped.1 typed).and
        (argument.reports_lower reflects valued).yields)
      rintro value middle ⟨typed, undisturbed, isType⟩
      rw [← undisturbed.scope] at wellTyped isType ⊢
      apply Step.Yields.bind (wellTyped_lowerEach reflects valued rest wellTyped.2 typed)
      rintro values later ⟨typed, areTypes⟩
      refine .pure ⟨typed, ?_⟩
      rw [List.map_cons, List.map_cons, areTypes, isType]

end

/-! ## Assignments -/

theorem wellTyped_store (typed : state.WellTyped context) {target : Binding}
    (inScope : target ∈ state.scope.bindings) {value : Ir.Value} (same : target.type = value.type) :
    (Step.modify fun draft => draft.store (.ofLocal target.slot) value).Yields state
      fun _ later => later.WellTyped context := by
  obtain ⟨declared, found, isType⟩ := typed.declared? inScope
  exact .modify (typed.write rfl ⟨declared, found, same.symm.trans isType⟩)

/-- The results of a call that is written go to variables of their types. -/
theorem wellTyped_receive (valued : surroundings.types.Valued) {name : String} {index : Nat}
    {definition : Definition} {signature : Signature}
    (resolved : context.resolveCall name = .ok (.function signature))
    (describes : Describes surroundings.types index definition signature) {values : List Ir.Value}
    (agree : values.map Ir.Value.type = signature.parameters) {first : Binding}
    {others : List Binding} (gives : signature.results = (first :: others).map Binding.type)
    (typed : state.WellTyped context)
    (inScope : ∀ target ∈ first :: others, target ∈ state.scope.bindings)
    (enough : others.length ≤ state.spills.slots.length) (fault : Fault) :
    (signature.write values >>= fun outcome =>
      match outcome.first with
      | none => throw fault
      | some value => do
        Step.modify fun draft => draft.store (.ofLocal first.slot) value
        unspill 0 others : Step Unit).Yields state fun _ later => later.WellTyped context := by
  have results := TypeNames.resolveAll_ne_void valued describes.results
  have direct := map_type_callResult state.draft results
  rw [gives] at direct
  obtain ⟨result, hasResult, isType⟩ := Option.map_eq_some_iff.mp direct
  have slots : others.zip state.spills.slots = others.zip (spillSlots others.length) :=
    Progress.Pooled.zip_slots typed.pooled enough
  have hasResult : state.draft.callResult signature.resultType = some result := by
    rw [Signature.resultType, gives]
    exact hasResult
  refine .of_after (after_receive signature values first others state hasResult enough fault) ?_
  rw [slots]
  have isSignature := mem_of_resolveCall resolved
  have segment : (Segment.receive result signature.id values first others).WellTyped
      (context.promises state.module) state.draft.function.locals := by
    refine ⟨⟨_, ⟨signature, isSignature, rfl, rfl⟩, agree, ?_⟩, isType, ?_, ?_⟩
    · rw [← hasResult]
      exact carried?_callResult _ _
    · exact fun target member => typed.declared? (inScope target member)
    · exact ⟨signature, isSignature, rfl, gives⟩
  exact typed.writeAll segment

/-- The results of a call go to variables of their types. -/
theorem wellTyped_assignResults (reflects : context.Reflects surroundings)
    (valued : surroundings.types.Valued) {first : Binding} {others : List Binding}
    (several : others ≠ []) {callee : String} {arguments : List Expression}
    (wellTyped :
      (Expression.call callee arguments).isWellTyped surroundings state.scope.typing = true)
    (gives : surroundings.results? callee = some ((first :: others).map Binding.type))
    (inScope : ∀ target ∈ first :: others, target ∈ state.scope.bindings)
    (typed : state.WellTyped context) :
    (assignResults context first others callee arguments).Yields state
      fun _ later => later.WellTyped context := by
  simp only [Expression.isWellTyped, Bool.and_eq_true, beq_iff_eq] at wellTyped
  obtain ⟨argumentsTyped, agree⟩ := wellTyped
  apply Step.Yields.ofExcept_bind
  intro target resolved
  obtain ⟨callable, isCallable, means⟩ := reflects.callable_of_resolveCall resolved
  rw [Surroundings.parameters?, isCallable, Option.map_some, Option.map_some, Option.some_inj]
    at agree
  rw [Surroundings.results?, isCallable, Option.map_some, Option.some_inj] at gives
  dsimp only
  split
  · exact .throw _
  apply Step.Yields.reserveSpills_bind
  have typed := typed.reserved others.length
  cases means with
  | builtin descriptor =>
      rw [Target.invoke, Target.invokeWith, bind_assoc]
      apply Step.Yields.ofExcept_bind
      intro external isExternal
      have few := length_results_le_of_external isExternal
      have many := congrArg List.length gives
      rw [Callable.results, List.length_map, List.length_map, List.length_cons] at many
      have positive := List.length_pos_iff.mpr several
      omega
  | @function index definition signature describes =>
      rw [Callable.results, TypeNames.map_meaning_of_resolveAll describes.results] at gives
      rw [Callable.parameters, TypeNames.map_meaning_of_resolveAll describes.parameters] at agree
      rw [Target.invoke, Target.invokeWith, bind_assoc]
      have evaluates : (Expression.lowerEach context arguments).Yields (state.reserved others.length)
          fun values later => (later.WellTyped context ∧
            arguments.map (·.type? surroundings state.scope.typing) = values.map (some ·.type)) ∧
              Undisturbed (state.reserved others.length) later :=
        .and (wellTyped_lowerEach reflects valued arguments argumentsTyped typed)
          ((Expression.reports_lowerEach reflects valued arguments).yields.mono fun _ _ => And.left)
      apply Step.Yields.bind evaluates
      rintro values middle ⟨⟨typed, areTypes⟩, undisturbed⟩
      rw [← agree] at areTypes
      apply wellTyped_receive valued resolved describes (map_type_of_agree areTypes.symm) gives typed
      · rw [undisturbed.scope]
        exact inScope
      · rw [undisturbed.spills]
        exact state.le_length_slots_reserved others.length

/-- The values of an expression go to variables of their types. -/
theorem wellTyped_assign (reflects : context.Reflects surroundings)
    (valued : surroundings.types.Valued) {targets : List Binding} {value : Expression}
    (wellTyped : value.isWellTyped surroundings state.scope.typing = true)
    (gives :
      value.gives surroundings state.scope.typing (targets.map fun target => some target.type) = true)
    (inScope : ∀ target ∈ targets, target ∈ state.scope.bindings) (typed : state.WellTyped context) :
    (assign context targets value).Yields state fun _ later => later.WellTyped context := by
  match targets with
  | [] => exact .throw _
  | [target] =>
      have isType : value.type? surroundings state.scope.typing = some target.type := by
        cases value with
        | call callee arguments =>
            simp only [Expression.gives, beq_iff_eq, Option.map_eq_some_iff] at gives
            obtain ⟨results, isCallable, agree⟩ := gives
            obtain rfl : results = [target.type] := by simpa using agree
            rw [Expression.type?, isCallable]
        | identifier | literal | instructionCall | instruction =>
            simpa [Expression.gives] using gives
      apply Step.Yields.bind ((wellTyped_lower reflects valued value wellTyped typed).and
        (value.reports_lower reflects valued).yields)
      rintro result later ⟨typed, undisturbed, same⟩
      refine wellTyped_store typed ?_ (Option.some.inj (isType.symm.trans same))
      rw [undisturbed.scope]
      exact inScope target (List.mem_singleton_self _)
  | first :: second :: others =>
      cases value with
      | call callee arguments =>
          simp only [Expression.gives, beq_iff_eq, Option.map_eq_some_iff] at gives
          obtain ⟨results, isCallable, agree⟩ := gives
          have same : results = (first :: second :: others).map Binding.type := by
            apply List.map_injective_iff.mpr (Option.some_injective _)
            rw [agree, List.map_map]
            rfl
          exact wellTyped_assignResults reflects valued (List.cons_ne_nil _ _) wellTyped
            (same ▸ isCallable) inScope typed
      | identifier | literal | instructionCall | instruction => exact .throw _

end YulLowering.Lowering
