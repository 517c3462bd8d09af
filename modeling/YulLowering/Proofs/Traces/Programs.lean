import YulLowering.Proofs.Traces.Statements

/-!
# Traces of functions and programs

A function answers the events of its definition behind those of its parameters and return variables. Every
function of a lowered program has been written along such a trace, which starts where the functions before it
have left the module.
-/

namespace YulLowering.Lowering

variable {context : Context}

theorem traces_bindParameters (names : List TypedName) (values : List Ir.Value) :
    (bindParameters names values).Traces context (TypedName.events (names.take values.length)) := by
  induction names generalizing values with
  | nil =>
      rw [List.take_nil]
      exact .pure ()
  | cons head names ih =>
      cases values with
      | nil => exact .pure ()
      | cons value values =>
          apply (traces_declare head.name value.type).bind
          intro slot
          exact .silent_bind (.store _ _) fun _ => ih values

theorem traces_bindReturns (names : List TypedName) (types : List Ir.ValueType) :
    (bindReturns names types).Traces context (TypedName.events (names.take types.length)) := by
  induction names generalizing types with
  | nil =>
      rw [List.take_nil]
      exact .pure []
  | cons head names ih =>
      cases types with
      | nil => exact .pure []
      | cons type types =>
          apply (traces_declare head.name type).bind
          intro slot
          apply Step.Traces.silent_bind (.const _ _)
          intro zero
          apply Step.Traces.silent_bind (.store _ _)
          intro _
          exact (ih types).bind_silent fun _ => .pure _

/-- The events of a definition and, before them, those of its parameters and return variables. There are no
more of these than the signature tells. -/
def Signature.events (signature : Signature) (definition : Definition) : List Event :=
  TypedName.events (definition.parameters.take signature.parameters.length) ++
    TypedName.events (definition.returns.take signature.results.length) ++
      Event.inBlock definition.events

/-- Up to where its return values are handed over, a function answers the events of its definition. -/
theorem BodyRun.trace {definition : Definition} {signature : Signature} {before : Progress}
    {returns : List Binding} {prepared finish : Stage}
    (run : BodyRun context definition signature
      ((before.begin definition.name signature).bound definition.parameters
        (before.begin definition.name signature).draft.function.parameters) returns prepared finish) :
    Trace context (signature.events definition) (before.begin definition.name signature)
      finish.state := by
  have count : (before.begin definition.name signature).draft.function.parameters.length =
      signature.parameters.length := by
    simp [Progress.begin, Ir.Draft.start, Ir.Function.pushBlock, Ir.Function.create]
  have anchored : (before.begin definition.name signature).draft.Anchored := Nat.zero_lt_one
  have copies : Trace context _ (before.begin definition.name signature) _ :=
    (traces_bindParameters definition.parameters
      (before.begin definition.name signature).draft.function.parameters anchored).holds _ _
        (after_bindParameters _ _ _)
  have declares : Trace context _ _ prepared.state :=
    (traces_bindReturns definition.returns signature.results (copies.anchored anchored)).holds _ _
      run.binds
  have performs := ((traces_statements definition.body).inBlock
    ((copies.trans declares).anchored anchored)).holds _ _ run.part.after
  rw [count] at copies
  exact (copies.trans declares).trans performs

/-- A definition adds the function that its trace has led to, once its return values are handed over. -/
theorem trace_of_lower {definition : Definition} {before later : Progress}
    (lowered : definition.lower context before = .ok later) :
    ∃ signature state returns, Trace context (signature.events definition)
        (before.begin definition.name signature) state ∧
      later.module =
        ((state.returned returns).module.pushFunction (state.returned returns).draft.function).2 := by
  obtain ⟨signature, state, -, written, rfl⟩ := writeBody_of_lower lowered
  obtain ⟨returns, prepared, finish, run, -, -, rfl⟩ :=
    writeBody_inv (before.begins definition.name signature) written
  exact ⟨signature, finish.state, returns, run.trace, rfl⟩

/-- A function that has been written along a trace of its definition. -/
def Traced (context : Context) (definition : Definition) (function : Ir.Function) : Prop :=
  ∃ (before : Progress) (signature : Signature) (state : State) (returns : List Binding),
    Trace context (signature.events definition) (before.begin definition.name signature) state ∧
      function = (state.returned returns).draft.function

/-! ## The end of a function -/

theorem calls_returnCode (supply : Nat) (slots : List Ir.GlobalId) (returns : List Binding) :
    (returnCode supply slots returns).filterMap Ir.Instruction.call? = [] := by
  cases returns with
  | nil => rfl
  | cons first others => exact calls_transferCode _ _

namespace State

variable {state : State}

/-- Where return values are handed over nothing is called. -/
theorem calls_returned (anchored : state.draft.Anchored) (returns : List Binding) :
    (state.returned returns).draft.function.calls.Perm state.draft.function.calls := by
  have written := calls_writeAll anchored (returnCode state.draft.function.valueSupply
    (state.reserved (returns.length - 1)).spills.slots returns)
  rw [calls_returnCode, List.append_nil] at written
  rwa [returned, Ir.Function.calls, Ir.Draft.instructions_close]

theorem instructions_returned (anchored : state.draft.Anchored) (returns : List Binding) :
    state.draft.function.instructions ⊆ (state.returned returns).draft.function.instructions := by
  rw [returned, Ir.Draft.instructions_close]
  intro instruction member
  exact (instructions_writeAll anchored _).mem_iff.mpr (List.mem_append_left _ member)

theorem locals_returned (state : State) (returns : List Binding) :
    (state.returned returns).draft.function.locals = state.draft.function.locals :=
  locals_writeAll _ _

theorem labels_returned (state : State) (returns : List Binding) :
    (state.returned returns).draft.function.labels = state.draft.function.labels := by
  rw [returned, Ir.Draft.labels_close, labels_writeAll]

end State

/-! ## Programs -/

theorem traced_of_lowerEach {definitions : List Definition} {before later : Progress}
    (lowered : Definition.lowerEach context before definitions = .ok later) :
    ∃ functions, List.Forall₂ (Traced context) definitions functions ∧
      later.module.functions = before.module.functions ++ functions ∧
      later.module.name = before.module.name := by
  induction definitions generalizing before with
  | nil =>
      cases lowered
      exact ⟨[], .nil, (List.append_nil _).symm, rfl⟩
  | cons definition rest ih =>
      obtain ⟨middle, first, others⟩ := lowerEach_cons_inv lowered
      obtain ⟨signature, state, returns, trace, isModule⟩ := trace_of_lower first
      obtain ⟨functions, traced, areOthers, sameName⟩ := ih others
      refine ⟨(state.returned returns).draft.function :: functions,
        .cons ⟨before, signature, state, returns, trace, rfl⟩ traced, ?_, ?_⟩
      · rw [areOthers, isModule]
        show (state.reserved _).module.functions ++ [(state.returned returns).draft.function] ++
          functions = _
        rw [State.functions_reserved, trace.functions, List.append_assoc]
        rfl
      · rw [sameName, isModule]
        show (state.reserved _).module.name = _
        rw [State.name_reserved, trace.name]
        rfl

namespace Compiled

variable {dialect : Dialect} {types : TypeNames} {program : Block} {module : Ir.Module}

/-- Every function of a module has been written along a trace. -/
theorem traced (compiled : Compiled dialect types program module) :
    List.Forall₂ (Traced ⟨dialect, types, compiled.signatures⟩) compiled.definitions
      module.functions := by
  obtain ⟨functions, traced, areFunctions, -⟩ := traced_of_lowerEach compiled.isLast
  have same : module.functions = functions :=
    (congrArg Ir.Module.functions compiled.isModule).trans areFunctions
  rwa [same]

theorem name_module (compiled : Compiled dialect types program module) :
    module.name = compiled.name := by
  obtain ⟨-, -, -, name⟩ := traced_of_lowerEach compiled.isLast
  exact (congrArg Ir.Module.name compiled.isModule).trans name

theorem Entry.traced {compiled : Compiled dialect types program module} {index : Nat}
    (entry : compiled.Entry index) :
    Traced ⟨dialect, types, compiled.signatures⟩ entry.definition entry.function := by
  obtain ⟨isIndex, isDefinition⟩ := List.getElem?_eq_some_iff.mp entry.isDefinition
  obtain ⟨bound, isFunction⟩ := List.getElem?_eq_some_iff.mp entry.isFunction
  rw [← isDefinition, ← isFunction]
  exact compiled.traced.get isIndex bound

end Compiled

namespace Traced

variable {definition : Definition} {function : Ir.Function}

/-- A function holds the calls of its definition, up to their order. -/
theorem written (traced : Traced context definition function) :
    ∃ calls, function.calls.Perm calls ∧
      List.Forall₂ (context.Writes function.instructions) (Event.calls definition.events) calls := by
  obtain ⟨before, signature, state, returns, trace, rfl⟩ := traced
  obtain ⟨calls, perm, writes⟩ := trace.written Nat.zero_lt_one
  have anchored := trace.anchored Nat.zero_lt_one
  refine ⟨calls, (State.calls_returned anchored returns).trans perm, ?_⟩
  rw [Signature.events, Event.calls_append, Event.calls_append, Event.calls_typedNames,
    Event.calls_typedNames, Event.calls_inBlock] at writes
  exact writes.imp fun _ _ => .mono (State.instructions_returned anchored returns)

/-- The slots of a function have the names of the variables of its definition. -/
theorem locals (traced : Traced context definition function) :
    function.locals.map Ir.LocalSlot.name ⊆ definition.variables := by
  obtain ⟨before, signature, state, returns, trace, rfl⟩ := traced
  rw [State.locals_returned, trace.locals]
  show Event.names (signature.events definition) ⊆ definition.variables
  rw [Signature.events, Event.names_append, Event.names_append, Event.names_typedNames,
    Event.names_typedNames, Event.names_inBlock, List.map_take, List.map_take]
  exact (((List.take_sublist _ _).append (List.take_sublist _ _)).append (.refl _)).subset

theorem labels (traced : Traced context definition function) : function.labels ⊆ Ir.blockLabels := by
  obtain ⟨before, signature, state, returns, trace, rfl⟩ := traced
  rw [State.labels_returned]
  apply List.Subset.trans trace.labels
  show ["entry"] ++ Ir.blockLabels ⊆ Ir.blockLabels
  decide

theorem receives (traced : Traced context definition function) :
    ∀ reception ∈ definition.receptions, context.Receives reception := by
  obtain ⟨before, signature, state, returns, trace, rfl⟩ := traced
  have receives := trace.receives
  rwa [Signature.events, Event.receptions_append, Event.receptions_append,
    Event.receptions_typedNames, Event.receptions_typedNames, List.nil_append, List.nil_append,
    Event.receptions_inBlock, Definition.receptions_events] at receives

end Traced

end YulLowering.Lowering
