import YulLowering.Proofs.Violations.Statements

/-!
# Programs are lowered if nothing is wrong with them

The lowering of a program fails with the first of what is wrong with it, and gives a module if nothing is.
-/

namespace YulLowering

open Lowering

variable {surroundings : Surroundings} {types : TypeNames}

/-! ## Signatures -/

theorem Block.definitions_eq (program : Block) :
    program.definitions = firstOf program.strays program.functions := by
  induction program with
  | nil => rfl
  | cons statement rest ih =>
      cases statement with
      | definition name parameters returns body =>
          rw [Block.definitions, ih]
          show Except.map _ (firstOf (strays rest) (functions rest)) =
            firstOf (strays rest) (⟨name, parameters, returns, body⟩ :: functions rest)
          cases strays rest <;> rfl
      | block | declaration | assignment | expression | conditional | switch | loop | breakLoop
      | continueLoop | label | stackAssignment => rfl

theorem Definition.signature_eq (types : TypeNames) (id : Ir.FunctionId) (definition : Definition) :
    definition.signature types id = firstOf definition.signatureFaults
      ⟨definition.name, id, (definition.parameters.map TypedName.typeName).map types.meaning,
        (definition.returns.map TypedName.typeName).map types.meaning⟩ := by
  rw [Definition.signature, types.resolveAll_eq, types.resolveAll_eq]
  exact firstOf_bind _ _ (firstOf_bind_pure _ _ _)

theorem Definition.verdict_signatures (types : TypeNames) (known : Signatures)
    (definitions : List Definition) :
    Verdict (Definition.signatures types known definitions)
      (definitions.flatMap fun definition => definition.errors definition.signatureFaults)
      fun _ => True := by
  induction definitions generalizing known with
  | nil => exact ⟨by simp, fun _ => ⟨known, rfl, trivial⟩⟩
  | cons definition rest ih =>
      rw [Definition.signatures, List.flatMap_cons]
      have own : Verdict (definition.signature types ⟨known.all.length⟩) definition.signatureFaults
          fun _ => True := .of_eq (definition.signature_eq types _) trivial
      apply (own.mapError _).bind
      intro signature _
      exact ih _

/-! ## Bodies -/

namespace Lowering

variable {context : Context} {state : State}

theorem State.typing_declared (state : State) (name : String) (type : Ir.ValueType) :
    (state.declared name type).scope.typing = state.scope.typing.declare [(name, type)] := by
  have appended : (state.declared name type).scope.bindings =
      state.scope.bindings ++ [⟨name, state.draft.nextLocal, type⟩] := rfl
  exact Scope.typing_append appended

/-- Parameters are visible where they have been copied. -/
theorem typing_bound (names : List TypedName) (values : List Ir.Value) (state : State) :
    (state.bound names values).scope.typing = state.scope.typing.declare
      ((names.map TypedName.name).zip (values.map Ir.Value.type)) := by
  induction names generalizing values state with
  | nil => rfl
  | cons head names ih =>
      cases values with
      | nil => rfl
      | cons value values =>
          rw [State.bound, ih]
          show (state.declared head.name value.type).scope.typing.declare _ = _
          rw [State.typing_declared]
          simp [Typing.declare]

theorem loops_bound (names : List TypedName) (values : List Ir.Value) (state : State) :
    (state.bound names values).loops = state.loops := by
  obtain ⟨-, same⟩ := State.bound_keeps (motive := fun _ later => later.loops = state.loops)
    (fun _ equal => equal) names values rfl
  exact same

/-- Return variables are declared whatever their types are. -/
theorem reports_bindReturns (names : List TypedName) (types : List Ir.ValueType) :
    (bindReturns names types).Reports state [] fun bindings later =>
      Adds state ((names.map TypedName.name).zip types) bindings later := by
  induction names generalizing types state with
  | nil => exact .pure ⟨(List.append_nil _).symm, rfl, rfl, rfl⟩
  | cons head names ih =>
      obtain ⟨name, typeName⟩ := head
      cases types with
      | nil => exact .pure ⟨(List.append_nil _).symm, rfl, rfl, rfl⟩
      | cons type types =>
          apply Step.Reports.declare_bind
          apply Step.Reports.write_bind
          apply Step.Reports.modify_bind
          apply Step.Reports.bind_last (ih types)
          intro bindings later adds
          refine .pure ⟨?_, adds.openings, congrArg _ adds.described, adds.loops⟩
          rw [adds.visible]
          simp [State.declared, Scope.bind]

theorem map_type_parameters (progress : Progress) (name : String) (signature : Signature) :
    (progress.begin name signature).draft.function.parameters.map Ir.Value.type =
      signature.parameters := by
  simp only [Progress.begin, Ir.Draft.start, Ir.Function.create, Ir.Function.pushBlock,
    List.map_map]
  exact List.zipIdx_map_fst 0 signature.parameters

theorem TypeNames.typed_eq_zip {names : List TypedName} {resolved : List Ir.ValueType}
    (success : types.resolveAll (names.map TypedName.typeName) = .ok resolved) :
    types.typed names = (names.map TypedName.name).zip resolved := by
  rw [← map_meaning_of_resolveAll success, List.map_map, List.zip_map']
  rfl

/-- The body of a function starts where the parameters and the return variables are visible. -/
theorem Adds.typing_prepared {types : TypeNames} {index : Nat} {definition : Definition}
    {signature : Signature} (describes : Describes types index definition signature)
    {progress : Progress} {returns : List Binding} {prepared : State}
    (adds : Adds ((progress.begin definition.name signature).bound definition.parameters
      (progress.begin definition.name signature).draft.function.parameters)
        ((definition.returns.map TypedName.name).zip signature.results) returns prepared) :
    prepared.scope.typing = definition.typing types := by
  rw [adds.leaves.typing, typing_bound, map_type_parameters, Definition.typing,
    TypeNames.typed_eq_zip describes.parameters, TypeNames.typed_eq_zip describes.results]
  rfl

end Lowering

/-- A function is written if nothing is wrong with its body. -/
theorem Definition.reports_writeBody {context : Context} (reflects : context.Reflects surroundings)
    (valued : surroundings.types.Valued) {definition : Definition}
    (apart : definition.initialisesApart = true) {index : Nat} {signature : Signature}
    (describes : Describes surroundings.types index definition signature) (progress : Progress) :
    (definition.writeBody context signature).Reports (progress.begin definition.name signature)
      (definition.bodyFaults surroundings) fun _ _ => True := by
  rw [Definition.writeBody]
  apply Step.Reports.inspect_bind
  apply Step.Reports.of_after_bind (after_bindParameters _ _ _)
  apply Step.Reports.silent_bind (reports_bindReturns _ _)
  intro returns prepared adds
  have typing := adds.typing_prepared describes
  have inLoop : prepared.loops.isInside = false := by
    rw [adds.loops, loops_bound]
    rfl
  apply Step.Reports.bind_last
    ((reports_statements reflects valued definition.body apart).inBlock ⟨typing, inLoop⟩)
  intro _ finish _
  apply Step.Reports.inspect_bind
  cases finish.draft.isClosed with
  | true => exact .pure trivial
  | false => exact .of_after (after_returnValues returns finish) trivial

/-- A function is added to the module if nothing is wrong with its body. -/
theorem Definition.verdict_lower {context : Context} (reflects : context.Reflects surroundings)
    (valued : surroundings.types.Valued) {definition : Definition}
    (apart : definition.initialisesApart = true) {index : Nat} {signature : Signature}
    (isSignature : context.signatures.lookup definition.name = some signature)
    (describes : Describes surroundings.types index definition signature) (progress : Progress) :
    Verdict (definition.lower context progress) (definition.bodyFaults surroundings)
      fun _ => True := by
  rw [Definition.lower, isSignature]
  exact (definition.reports_writeBody reflects valued apart describes progress).verdict.bind_pure _

/-- Functions are added to the module in order. -/
theorem Definition.verdict_lowerEach {context : Context} (reflects : context.Reflects surroundings)
    (valued : surroundings.types.Valued) {definitions : List Definition}
    (known : ∀ definition ∈ definitions, definition.initialisesApart = true ∧
      ∃ index signature, context.signatures.lookup definition.name = some signature ∧
        Describes surroundings.types index definition signature) (progress : Progress) :
    Verdict (Definition.lowerEach context progress definitions)
      (definitions.flatMap fun definition =>
        definition.errors (definition.bodyFaults surroundings)) fun _ => True := by
  induction definitions generalizing progress with
  | nil => exact ⟨by simp, fun _ => ⟨progress, rfl, trivial⟩⟩
  | cons definition rest ih =>
      obtain ⟨⟨apart, index, signature, isSignature, describes⟩, knownRest⟩ :=
        List.forall_mem_cons.mp known
      rw [Definition.lowerEach, List.flatMap_cons]
      have own := definition.verdict_lower reflects valued apart isSignature describes progress
      apply (own.mapError _).bind
      intro middle _
      exact ih knownRest middle

/-! ## Whole programs -/

theorem Block.verdict_toModule {dialect : Dialect} (valued : types.Valued) {name : String}
    {program : Block} (distinct : (program.functions.map Definition.name).Nodup)
    (apart : ∀ definition ∈ program.functions, definition.initialisesApart = true) :
    Verdict (program.toModule dialect types name) (program.violations dialect types) fun _ => True := by
  have definitions : Verdict program.definitions program.strays fun definitions =>
      program.functions = definitions := .of_eq program.definitions_eq rfl
  rw [Block.toModule, Block.violations, List.append_assoc]
  apply (definitions.mapError _).bind
  rintro _ rfl
  apply (Definition.verdict_signatures types .empty program.functions).recorded.bind
  intro signatures collected
  have reflects : Context.Reflects ⟨dialect, types, signatures⟩ ⟨dialect, types, program.functions⟩ :=
    reflects_of_signatures distinct collected
  have known : ∀ definition ∈ program.functions, definition.initialisesApart = true ∧
      ∃ index signature, signatures.lookup definition.name = some signature ∧
        Describes types index definition signature := by
    intro definition member
    exact ⟨apart definition member,
      reflects.found definition.name definition (find?_of_distinct distinct member)⟩
  exact (Definition.verdict_lowerEach reflects valued known _).bind_pure _

/-- A program is lowered if nothing is wrong with it, and the first of what is wrong is reported
otherwise. -/
theorem Block.toModule_reports_violations {dialect : Dialect} {types : TypeNames}
    {default name : String} {program : Block} (made : TypeNames.ofDefaultName default = .ok types)
    (distinct : (program.functions.map Definition.name).Nodup)
    (apart : ∀ definition ∈ program.functions, definition.initialisesApart = true) :
    ((∃ module, program.toModule dialect types name = .ok module) ↔
        program.violations dialect types = []) ∧
      ∀ error, program.toModule dialect types name = .error error ↔
        (program.violations dialect types).head? = some error :=
  (Block.verdict_toModule (TypeNames.valued_of_ofDefaultName made) distinct apart).iff

/-- A variable that is read behind the loop it is declared in, a loop exit outside all loops, and further
down a parameter of an unknown type. -/
def faultyProgram : Block :=
  [.definition "f" [⟨"a", ""⟩] [⟨"r", ""⟩]
      [.loop [.declaration [⟨"i", ""⟩] (some (.identifier "a"))] (.identifier "i")
        [.assignment ["i"] (.identifier "r")] [.conditional (.identifier "i") [.breakLoop]],
        .assignment ["r"] (.identifier "i"),
        .breakLoop],
    .definition "g" [⟨"b", "u7"⟩] [] []]

theorem Block.toModule_reports_violations_faultyProgram :
    faultyProgram.violations (.empty .strict) .standard =
        [⟨some "g", .unknownType "u7"⟩, ⟨some "f", .undeclaredName "i"⟩,
          ⟨some "f", .outsideLoop .breakLoop⟩] ∧
      faultyProgram.toModule (.empty .strict) .standard "m" =
        .error ⟨some "g", .unknownType "u7"⟩ := by
  have violations : faultyProgram.violations (.empty .strict) .standard =
      [⟨some "g", .unknownType "u7"⟩, ⟨some "f", .undeclaredName "i"⟩,
        ⟨some "f", .outsideLoop .breakLoop⟩] := by decide +kernel
  have made : TypeNames.ofDefaultName "u256" = .ok .standard := by decide +kernel
  have distinct : (faultyProgram.functions.map Definition.name).Nodup := by decide +kernel
  have apart : ∀ definition ∈ faultyProgram.functions, definition.initialisesApart = true := by
    decide +kernel
  refine ⟨violations, ((Block.toModule_reports_violations made distinct apart).2 _).mpr ?_⟩
  rw [violations]
  rfl

end YulLowering
