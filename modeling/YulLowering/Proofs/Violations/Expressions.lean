import YulLowering.Proofs.Violations.Reports
import YulLowering.Proofs.Violations.Source

/-!
# Expressions report the first of what is wrong

An expression is lowered if nothing is wrong with it, and what it gives then has the types that the source
tells. It leaves the visible variables, the loops around it and the pool of spill slots alone.
-/

namespace YulLowering

open Lowering

/-! ## Types and literals -/

namespace Lowering.TypeNames

variable {types : TypeNames}

/-- No name of a type stands for `void`. -/
def Valued (types : TypeNames) : Prop :=
  ∀ name type, types.resolve name = .ok type → type ≠ .void

theorem valued_of_ofDefaultName {default : String} (made : ofDefaultName default = .ok types) :
    types.Valued :=
  fun _ _ resolved => resolve_ne_void made resolved

theorem resolveAll_ne_void (valued : types.Valued) {names : List String}
    {resolved : List Ir.ValueType} (success : types.resolveAll names = .ok resolved) :
    ∀ type ∈ resolved, type ≠ .void := by
  have each : List.Forall₂ (fun type name => type ≠ .void ∧ types.resolve name = .ok type) resolved names :=
    (mapM_ok_inv success).flip.imp fun type name resolves => ⟨valued name type resolves, resolves⟩
  exact ((List.forall₂_and_left ..).mp each).1

/-- A name of a type that is known stands for one. -/
theorem resolve_eq (types : TypeNames) (name : String) :
    types.resolve name = firstOf (faults [name]) (types.meaning name) := by
  unfold faults firstOf meaning resolve
  cases isEmpty : name.isEmpty with
  | true => simp [known, isEmpty]
  | false => cases found : catalog.lookup name <;> simp [known, isEmpty, found]

theorem faults_cons (name : String) (names : List String) :
    faults (name :: names) = faults [name] ++ faults names := by
  unfold faults
  cases isKnown : known name <;> simp [isKnown]

theorem resolveAll_eq (types : TypeNames) (names : List String) :
    types.resolveAll names = firstOf (faults names) (names.map types.meaning) := by
  unfold resolveAll
  induction names with
  | nil => rfl
  | cons name names ih =>
      rw [List.mapM_cons, faults_cons, types.resolve_eq, ih]
      exact firstOf_bind _ _ (firstOf_bind_pure _ _ _)

end Lowering.TypeNames

theorem Literal.valueAt_eq (literal : Literal) (type : Ir.ValueType) :
    literal.valueAt type = firstOf (literal.faultsAt type) (literal.value?.getD 0) := by
  unfold Literal.valueAt Literal.faultsAt firstOf
  cases literal.value? with
  | none => rfl
  | some value => by_cases fits : type.Holds value <;> simp [fits]

namespace Lowering

variable {context : Context} {surroundings : Surroundings} {state : State}

theorem Context.Reflects.literalType_eq (reflects : context.Reflects surroundings)
    (literal : Literal) :
    context.literalType literal =
      firstOf (TypeNames.faults [literal.typeName]) (surroundings.literalType literal) := by
  unfold Context.literalType Surroundings.literalType
  rw [reflects.types]
  split
  · next untyped =>
    have isKnown : TypeNames.known literal.typeName = true := by simp [TypeNames.known, untyped.1]
    simp [TypeNames.faults, isKnown, firstOf]
  · exact TypeNames.resolve_eq _ _

theorem Context.Reflects.external_eq (reflects : context.Reflects surroundings) (builtin : Builtin) :
    context.external builtin = firstOf (Callable.builtin builtin).faults
      ⟨builtin.name, builtin.parameters.map surroundings.types.meaning,
        builtin.results.map surroundings.types.meaning, builtin.effects⟩ := by
  unfold Context.external
  rw [reflects.types, Callable.faults]
  by_cases several : builtin.results.length > 1
  · rw [if_pos several, if_neg (Nat.not_le.mpr several)]
    rfl
  · rw [if_neg several, if_pos (Nat.le_of_not_lt several), List.nil_append]
    simp only [TypeNames.resolveAll_eq]
    exact firstOf_bind _ _ (firstOf_bind_pure _ _ _)

/-! ## Calls -/

/-- Nothing has happened that a source program could tell: code has been written, and builtins have been
declared. -/
structure Undisturbed (state later : State) : Prop where
  scope : later.scope = state.scope
  loops : later.loops = state.loops
  spills : later.spills = state.spills

theorem Undisturbed.refl (state : State) : Undisturbed state state :=
  ⟨rfl, rfl, rfl⟩

theorem Undisturbed.trans {middle later : State} (first : Undisturbed state middle)
    (second : Undisturbed middle later) : Undisturbed state later :=
  ⟨second.scope.trans first.scope, second.loops.trans first.loops, second.spills.trans first.spills⟩

/-- A call gives results of some types, the first of them directly. -/
structure CallOutcome.Gives (outcome : CallOutcome) (results : List Ir.ValueType) : Prop where
  count : outcome.count = results.length
  first : outcome.first.map Ir.Value.type = results.head?

/-- A result is direct if its type has values. -/
theorem map_type_callResult (draft : Ir.Draft) {results : List Ir.ValueType}
    (valued : ∀ type ∈ results, type ≠ .void) :
    (draft.callResult (results.head?.getD .void)).map Ir.Value.type = results.head? := by
  cases results with
  | nil => rfl
  | cons type rest =>
      have isValued := valued type List.mem_cons_self
      simp [Ir.Draft.callResult, Ir.ValueType.isVoid, Ir.Draft.next, isValued]

theorem reports_write {signature : Signature} (values : List Ir.Value)
    (valued : ∀ type ∈ signature.results, type ≠ .void) :
    (signature.write values).Reports state [] fun outcome later =>
      Undisturbed state later ∧ outcome.Gives signature.results := by
  apply Step.Reports.write_bind
  refine .pure ⟨⟨rfl, rfl, rfl⟩, rfl, ?_⟩
  rw [Ir.Draft.call_eq]
  exact map_type_callResult _ valued

theorem reports_writeExternal {external : Ir.External} (values : List Ir.Value)
    (valued : ∀ type ∈ external.results, type ≠ .void) :
    (writeExternal external values).Reports state [] fun outcome later =>
      Undisturbed state later ∧ outcome.Gives external.results := by
  apply Step.Reports.declareExternal_bind
  apply Step.Reports.write_bind
  refine .pure ⟨⟨rfl, rfl, rfl⟩, rfl, ?_⟩
  rw [Ir.Draft.call_eq]
  exact map_type_callResult _ valued

/-- A call that gives one value has it as its direct result. -/
theorem CallOutcome.Gives.single_eq {outcome : CallOutcome} {results : List Ir.ValueType}
    (gives : outcome.Gives results) :
    ∃ value, outcome.single =
        firstOf (if results.length = 1 then [] else [.arity 1 results.length]) value ∧
      (results.length = 1 → results = [value.type]) := by
  obtain ⟨count, first⟩ := gives
  unfold CallOutcome.single
  cases isFirst : outcome.first with
  | none =>
      rw [isFirst] at first
      obtain rfl : results = [] := by simpa [eq_comm] using first
      exact ⟨default, by simp [count, firstOf], by simp⟩
  | some value =>
      rw [isFirst] at first
      refine ⟨value, ?_, ?_⟩
      · dsimp only
        rw [count]
        split <;> rfl
      · intro one
        obtain ⟨type, rfl⟩ := List.length_eq_one_iff.mp one
        simpa [eq_comm] using first

end Lowering

/-! ## Variables -/

theorem Typing.faults_cons (typing : Typing) (name : String) (names : List String) :
    typing.faults (name :: names) = typing.faults [name] ++ typing.faults names := by
  unfold Typing.faults
  cases found : typing.lookup name <;> simp [found]

namespace Lowering

variable {state : State}

theorem reports_lookup (name : String) :
    (Step.lookup name).Reports state (state.scope.typing.faults [name]) fun binding later =>
      state = later ∧ state.scope.lookup name = some binding := by
  have visible := state.scope.lookup_typing name
  rw [Step.lookup, Typing.faults]
  apply Step.Reports.inspect_bind
  cases found : state.scope.lookup name with
  | none =>
      have missing : state.scope.typing.lookup name = none := by rw [visible, found, Option.map_none]
      rw [List.filter_cons_of_pos (by simp [missing])]
      exact .throw _ _
  | some binding =>
      have present : state.scope.typing.lookup name = some binding.type := by
        rw [visible, found, Option.map_some]
      rw [List.filter_cons_of_neg (by simp [present])]
      exact .pure ⟨rfl, rfl⟩

theorem reports_lookups (names : List String) :
    (names.mapM Step.lookup).Reports state (state.scope.typing.faults names) fun bindings later =>
      state = later ∧ state.scope.Means names bindings := by
  induction names with
  | nil => exact .pure ⟨rfl, .nil⟩
  | cons name rest ih =>
      rw [List.mapM_cons, Typing.faults_cons]
      apply Step.Reports.bind (reports_lookup name)
      rintro binding _ ⟨rfl, found⟩
      apply Step.Reports.bind_last ih
      rintro bindings _ ⟨rfl, means⟩
      exact .pure ⟨rfl, .cons found means⟩

end Lowering

/-! ## Expressions -/

variable {context : Context} {surroundings : Surroundings} {state : State}

theorem Literal.reports_lower (reflects : context.Reflects surroundings) (literal : Literal) :
    (literal.lower context).Reports state (literal.faults surroundings) fun value later =>
      Undisturbed state later ∧ surroundings.literalType literal = value.type := by
  apply Step.Reports.ofExcept_bind (reflects.literalType_eq literal)
  intro _
  rw [← List.append_nil (literal.faultsAt _)]
  apply Step.Reports.ofExcept_bind (literal.valueAt_eq _)
  intro _
  exact .write ⟨⟨rfl, rfl, rfl⟩, rfl⟩

theorem Expression.reports_lowerLiterals (reflects : context.Reflects surroundings)
    (builtin : String) (index : Nat) (arguments : List Expression) :
    (Expression.lowerLiterals context builtin index arguments).Reports state
      (Expression.literalFaults surroundings builtin index arguments) fun values later =>
        Undisturbed state later ∧
          ∀ typing, arguments.map (·.type? surroundings typing) = values.map (some ·.type) := by
  induction arguments generalizing state index with
  | nil => exact .pure ⟨.refl state, fun _ => rfl⟩
  | cons argument rest ih =>
      cases argument with
      | literal written =>
          apply Step.Reports.bind (written.reports_lower reflects)
          rintro value middle ⟨first, isType⟩
          apply Step.Reports.bind_last (ih (index + 1))
          rintro values later ⟨others, areTypes⟩
          refine .pure ⟨first.trans others, ?_⟩
          intro typing
          rw [List.map_cons, List.map_cons, areTypes, Expression.type?, isType]
      | identifier | call | instructionCall | instruction => exact .throw _ _

/-- A call is written if nothing is wrong with what is called and with the arguments, and then gives what
the source tells. -/
theorem Lowering.reports_invokeWith (reflects : context.Reflects surroundings)
    (valued : surroundings.types.Valued) {target : Target} {callable : Callable}
    (means : target.Means surroundings.types callable) (arguments : List Expression)
    {evaluate : Step (List Ir.Value)} {faults : List Fault}
    (evaluates : evaluate.Reports state faults fun _ later => Undisturbed state later) :
    (target.invokeWith context arguments evaluate).Reports state
      (callable.faults ++
        match callable.literalsOnly? with
        | some builtin => Expression.literalFaults surroundings builtin 0 arguments
        | none => faults)
      fun outcome later => Undisturbed state later ∧
        outcome.Gives (callable.results.map surroundings.types.meaning) := by
  cases means with
  | @function index definition signature describes =>
      have results := TypeNames.map_meaning_of_resolveAll describes.results
      apply Step.Reports.bind_last evaluates
      intro values middle first
      apply (reports_write values (TypeNames.resolveAll_ne_void valued describes.results)).mono
      rintro outcome later ⟨second, gives⟩
      refine ⟨first.trans second, ?_⟩
      rwa [Callable.results, results]
  | builtin descriptor =>
      apply Step.Reports.ofExcept_bind (reflects.external_eq descriptor)
      intro isExternal
      obtain ⟨-, -, -, resolved⟩ := external_inv isExternal
      rw [reflects.types] at resolved
      have writes (values : List Ir.Value) {middle : State} (first : Undisturbed state middle) :
          (writeExternal ⟨descriptor.name, descriptor.parameters.map surroundings.types.meaning,
            descriptor.results.map surroundings.types.meaning, descriptor.effects⟩ values).Reports
              middle [] fun outcome later => Undisturbed state later ∧
                outcome.Gives (descriptor.results.map surroundings.types.meaning) := by
        apply (reports_writeExternal values (TypeNames.resolveAll_ne_void valued resolved)).mono
        rintro outcome later ⟨second, gives⟩
        exact ⟨first.trans second, gives⟩
      rw [Callable.literalsOnly?]
      split
      · apply Step.Reports.bind_last (Expression.reports_lowerLiterals reflects _ _ arguments)
        rintro values middle ⟨first, -⟩
        exact writes values first
      · apply Step.Reports.bind_last evaluates
        intro values middle first
        exact writes values first

/-- A call goes on if its name means something. -/
theorem Lowering.reports_resolved {α : Type} {next : Target → Step α} {faults : List Fault}
    {post : α → State → Prop} (reflects : context.Reflects surroundings) (name : String)
    (missing : surroundings.callable? name = none → ∃ more, faults = .undeclaredName name :: more)
    (found : ∀ target callable, surroundings.callable? name = some callable →
      target.Means surroundings.types callable → (next target).Reports state faults post) :
    (Step.ofExcept (context.resolveCall name) >>= next).Reports state faults post := by
  have resolves := reflects.resolveCall name
  cases isCallable : surroundings.callable? name with
  | none =>
      obtain ⟨more, rfl⟩ := missing isCallable
      rw [isCallable] at resolves
      rw [resolves]
      have stops : (Step.ofExcept (.error (.undeclaredName name)) : Step Target).Reports state
          (.undeclaredName name :: more) fun _ _ => False := .throw _ _
      exact stops.bind_last fun _ _ => False.elim
  | some callable =>
      rw [isCallable] at resolves
      obtain ⟨target, resolved, means⟩ := resolves
      rw [resolved]
      exact .of_after_bind rfl (found target callable isCallable means)

mutual

/-- An expression that has to give one value is lowered if nothing is wrong with it. -/
theorem Expression.reports_lower (reflects : context.Reflects surroundings)
    (valued : surroundings.types.Valued) : (expression : Expression) → {state : State} →
    (expression.lower context).Reports state
      (expression.operandFaults surroundings state.scope.typing) fun value later =>
        Undisturbed state later ∧
          expression.type? surroundings state.scope.typing = some value.type
  | .identifier name, state => by
      rw [Expression.lower]
      apply Step.Reports.bind (reports_lookup name)
      rintro binding _ ⟨rfl, found⟩
      refine .write ⟨⟨rfl, rfl, rfl⟩, ?_⟩
      rw [Expression.type?, Scope.lookup_typing, found]
      rfl
  | .literal written, state => by
      rw [Expression.lower]
      apply (written.reports_lower reflects).append_nil.mono
      rintro value later ⟨undisturbed, isType⟩
      exact ⟨undisturbed, congrArg some isType⟩
  | .call callee arguments, state => by
      rw [Expression.lower, Expression.operandFaults, Expression.faults, Expression.countFaults,
        Expression.type?, Surroundings.results?]
      apply reports_resolved reflects callee
      case missing =>
        intro isMissing
        rw [isMissing]
        exact ⟨_, rfl⟩
      case found =>
        intro target callable isCallable means
        rw [isCallable]
        have evaluates : (Expression.lowerEach context arguments).Reports state
            (Expression.argumentFaults surroundings state.scope.typing arguments)
            fun _ later => Undisturbed state later :=
          (Expression.reports_lowerEach reflects valued arguments).mono fun _ _ => And.left
        apply Step.Reports.bind (reports_invokeWith reflects valued means arguments evaluates)
        rintro outcome later ⟨undisturbed, gives⟩
        obtain ⟨value, single, isType⟩ := gives.single_eq
        refine .ofExcept single fun agrees => ⟨undisturbed, ?_⟩
        have one : (callable.results.map surroundings.types.meaning).length = 1 := by
          by_contra several
          rw [Option.map_some] at agrees
          dsimp only at agrees
          rw [if_neg several] at agrees
          cases agrees
        simp only [Option.map_some, isType one]
  | .instructionCall mnemonic _, _ => by
      rw [Expression.lower]
      exact .throw _ _
  | .instruction mnemonic, _ => by
      rw [Expression.lower]
      exact .throw _ _

/-- Arguments are lowered if nothing is wrong with any of them. -/
theorem Expression.reports_lowerEach (reflects : context.Reflects surroundings)
    (valued : surroundings.types.Valued) : (arguments : List Expression) → {state : State} →
    (Expression.lowerEach context arguments).Reports state
      (Expression.argumentFaults surroundings state.scope.typing arguments) fun values later =>
        Undisturbed state later ∧
          arguments.map (·.type? surroundings state.scope.typing) = values.map (some ·.type)
  | [], state => by
      rw [Expression.lowerEach]
      exact .pure ⟨.refl state, rfl⟩
  | argument :: rest, state => by
      rw [Expression.lowerEach, Expression.argumentFaults]
      apply Step.Reports.bind (Expression.reports_lower reflects valued argument)
      rintro value middle ⟨first, isType⟩
      rw [← first.scope]
      apply Step.Reports.bind_last (Expression.reports_lowerEach reflects valued rest)
      rintro values later ⟨others, areTypes⟩
      refine .pure ⟨first.trans others, ?_⟩
      rw [first.scope] at areTypes ⊢
      rw [List.map_cons, List.map_cons, areTypes, isType]

end

/-- A call is written if nothing is wrong with what is called and with the arguments. -/
theorem Lowering.reports_invoke (reflects : context.Reflects surroundings)
    (valued : surroundings.types.Valued) {target : Target} {callable : Callable}
    (means : target.Means surroundings.types callable) (arguments : List Expression) :
    (target.invoke context arguments).Reports state
      (callable.faults ++
        match callable.literalsOnly? with
        | some builtin => Expression.literalFaults surroundings builtin 0 arguments
        | none => Expression.argumentFaults surroundings state.scope.typing arguments)
      fun outcome later => Undisturbed state later ∧
        outcome.Gives (callable.results.map surroundings.types.meaning) := by
  apply reports_invokeWith reflects valued means arguments
  exact (Expression.reports_lowerEach reflects valued arguments).mono fun _ _ => And.left

end YulLowering
