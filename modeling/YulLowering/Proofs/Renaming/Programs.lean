import YulLowering.Proofs.Naming
import YulLowering.Proofs.Renaming.Statements
import YulLowering.Proofs.Violations.Programs

/-!
# Programs under different names of variables

Programs that differ in the names of variables are lowered to the same module, up to the names of slots. A
function of a repeated name is written under the header of the last one, and parameters and return variables
beyond that header get no slot. Such a variable is not visible; its name then means a variable in front of it
that has the same name, if there is one, and then names do matter.
-/

namespace YulLowering

/-- A definition under a header with a number of parameters and a number of results. No variable in excess of
that header has the name of a variable that gets a slot in front of it. -/
structure Definition.Fits (definition : Definition) (arity results : Nat) : Prop where
  parameters : ∀ target ∈ definition.parameters.drop arity,
    target.name ∉ (definition.parameters.take arity).map TypedName.name
  returns : ∀ target ∈ definition.returns.drop results,
    target.name ∉ (definition.parameters.take arity).map TypedName.name ++
      (definition.returns.take results).map TypedName.name

/-- Every definition of a program fits the header that it is written under, that of the last definition of
its name. -/
def Block.Fits (program : Block) : Prop :=
  ∀ definition ∈ program.functions, ∀ meant,
    Definition.latest? program.functions definition.name = some meant →
    definition.Fits meant.parameters.length meant.returns.length

/-- Nothing is in excess of a definition's own header. -/
theorem Definition.fits_self (definition : Definition) :
    definition.Fits definition.parameters.length definition.returns.length where
  parameters := by simp
  returns := by simp

/-- Definitions of distinct names are written under their own headers. -/
theorem Block.fits_of_distinct {program : Block}
    (distinct : (program.functions.map Definition.name).Nodup) : program.Fits := by
  intro definition isDefinition meant isMeant
  have own : Definition.latest? program.functions definition.name = some definition := by
    apply Lowering.find?_of_distinct
    · rw [List.map_reverse]
      exact (List.reverse_perm _).nodup_iff.mpr distinct
    · exact List.mem_reverse.mpr isDefinition
  obtain rfl := Option.some.inj (own.symm.trans isMeant)
  exact definition.fits_self

/-- Programs that differ in the names of variables have functions that do, and the same besides them. -/
theorem Block.functions_of_renamedEach {visible later : Renaming} {program other : Block}
    (renamed : Statement.RenamedEach visible program other later) :
    program.strays = other.strays ∧
      List.Forall₂ Definition.Renamed program.functions other.functions := by
  induction program generalizing visible other with
  | nil =>
      cases renamed
      exact ⟨rfl, .nil⟩
  | cons statement rest ih =>
      cases renamed with
      | cons first each =>
          obtain ⟨strays, functions⟩ := ih each
          cases first with
          | definition name sameParameters sameReturns inside =>
              exact ⟨strays, .cons ⟨rfl, sameParameters, sameReturns, _, inside⟩ functions⟩
          | block | declaration | initialised | assignment | expression | conditional | switch | loop
          | breakLoop | continueLoop | label | stackAssignment =>
              exact ⟨congrArg (List.cons _) strays, functions⟩

namespace Renaming

/-- Variables are declared part by part. -/
theorem declare_append {first others : List TypedName} (same : first.length = others.length)
    (visible : Renaming) (rest more : List TypedName) :
    visible.declare (first ++ rest) (others ++ more) =
      (visible.declare first others).declare rest more := by
  induction first generalizing others visible with
  | nil =>
      obtain rfl := List.length_eq_zero_iff.mp same.symm
      rfl
  | cons target first ih =>
      cases others with
      | nil => cases same
      | cons otherTarget others => exact ih (Nat.succ.inj same) _

end Renaming

namespace Lowering

variable {context : Context} {visible : Renaming} {state other : State}

/-! ## Headers -/

/-- The names of the visible declarations, oldest first. -/
def Scope.names (scope : Scope) : List String :=
  scope.bindings.map Binding.name

@[simp] theorem Scope.names_bind (scope : Scope) (binding : Binding) :
    (scope.bind binding).names = scope.names ++ [binding.name] := by
  simp [names, bind]

theorem Scope.lookup_eq_none {scope : Scope} {name : String} (absent : name ∉ scope.names) :
    scope.lookup name = none := by
  rw [lookup, List.find?_eq_none]
  intro binding isVisible named
  exact absent (List.mem_map.mpr ⟨binding, List.mem_reverse.mp isVisible, by simpa using named⟩)

/-- Where none of the names is visible, variables may be taken to be declared that are not. -/
theorem State.Renamed.hiddenAll (renamed : State.Renamed visible state other)
    {declared others : List TypedName} (absent : ∀ target ∈ declared, target.name ∉ state.scope.names)
    (otherAbsent : ∀ target ∈ others, target.name ∉ other.scope.names) :
    State.Renamed (visible.declare declared others) state other := by
  induction declared generalizing visible others with
  | nil => exact renamed
  | cons target rest ih =>
      cases others with
      | nil => exact renamed
      | cons otherTarget others =>
          rw [List.forall_mem_cons] at absent otherAbsent
          exact ih (renamed.hidden (Scope.lookup_eq_none absent.1) (Scope.lookup_eq_none otherAbsent.1))
            absent.2 otherAbsent.2

/-- Parameters get slots as far as there are values for them. -/
theorem renamed_bindParameters {names others : List TypedName} (same : names.length = others.length)
    (values : List Ir.Value) :
    Step.Renamed visible (visible.declare (names.take values.length) (others.take values.length)) Eq
      (bindParameters names values) (bindParameters others values) := by
  induction names generalizing others values visible with
  | nil =>
      obtain rfl := List.length_eq_zero_iff.mp same.symm
      rw [List.take_nil]
      exact .pure rfl
  | cons target rest ih =>
      cases others with
      | nil => cases same
      | cons other others =>
          cases values with
          | nil => exact .pure rfl
          | cons value values =>
              apply (Step.Renamed.declare target.name other.name value.type).bind
              rintro slot _ rfl
              exact .modify_bind (fun _ => rfl) (ih (Nat.succ.inj same) values)

/-- Return variables get slots as far as there are types for them. -/
theorem renamed_bindReturns {names others : List TypedName} (same : names.length = others.length)
    (types : List Ir.ValueType) :
    Step.Renamed visible (visible.declare (names.take types.length) (others.take types.length))
      (List.Forall₂ Binding.Same) (bindReturns names types) (bindReturns others types) := by
  induction names generalizing others types visible with
  | nil =>
      obtain rfl := List.length_eq_zero_iff.mp same.symm
      rw [List.take_nil]
      exact .pure .nil
  | cons target rest ih =>
      cases others with
      | nil => cases same
      | cons other others =>
          cases types with
          | nil => exact .pure .nil
          | cons type types =>
              apply (Step.Renamed.declare target.name other.name type).bind
              rintro slot _ rfl
              apply Step.Renamed.write_bind fun _ => rfl
              intro zero
              refine .modify_bind (fun _ => rfl) ?_
              apply (ih (Nat.succ.inj same) types).bind
              intro bindings otherBindings all
              exact .pure (.cons rfl all)

theorem yields_bindParameters (names : List TypedName) (values : List Ir.Value) :
    (bindParameters names values).Yields state fun _ later =>
      later.scope.names = state.scope.names ++ (names.take values.length).map TypedName.name := by
  induction names generalizing values state with
  | nil => exact .pure (by simp)
  | cons target rest ih =>
      cases values with
      | nil => exact .pure (List.append_nil _).symm
      | cons value values =>
          apply Step.Yields.declare_bind
          apply Step.Yields.modify_bind
          apply (ih values).mono
          intro _ later names
          rw [names]
          simp [State.declared]

theorem yields_bindReturns (names : List TypedName) (types : List Ir.ValueType) :
    (bindReturns names types).Yields state fun _ later =>
      later.scope.names = state.scope.names ++ (names.take types.length).map TypedName.name := by
  induction names generalizing types state with
  | nil => exact .pure (by simp)
  | cons target rest ih =>
      cases types with
      | nil => exact .pure (List.append_nil _).symm
      | cons type types =>
          apply Step.Yields.declare_bind
          apply Step.Yields.write_bind
          apply Step.Yields.modify_bind
          apply (ih types).bind
          intro bindings later names
          apply Step.Yields.pure
          rw [names]
          simp [State.declared]

/-- The header of a function makes its variables visible. Those in excess of it are visible nowhere, so they
may be taken to be declared as well. -/
theorem together_header {definition second : Definition} (renamed : definition.Renamed second)
    {values : List Ir.Value} {types : List Ir.ValueType} (fits : definition.Fits values.length types.length)
    (otherFits : second.Fits values.length types.length) (states : State.Renamed [] state other)
    (nothing : state.scope.names = []) (otherNothing : other.scope.names = []) :
    Together (fun bindings otherBindings later otherLater =>
        List.Forall₂ Binding.Same bindings otherBindings ∧
          State.Renamed ((Renaming.declare [] definition.parameters second.parameters).declare
            definition.returns second.returns) later otherLater)
      ((bindParameters definition.parameters values >>= fun _ =>
        bindReturns definition.returns types).after state)
      ((bindParameters second.parameters values >>= fun _ =>
        bindReturns second.returns types).after other) := by
  have parameters : definition.parameters.length = second.parameters.length := by
    simpa using congrArg List.length renamed.parameters
  have returns : definition.returns.length = second.returns.length := by
    simpa using congrArg List.length renamed.returns
  have partly (count : Nat) : (definition.parameters.take count).length =
      (second.parameters.take count).length := by
    rw [List.length_take, List.length_take, parameters]
  have partlyReturns (count : Nat) : (definition.returns.take count).length =
      (second.returns.take count).length := by
    rw [List.length_take, List.length_take, returns]
  apply ((renamed_bindParameters parameters values states).and (yields_bindParameters _ _)
    (yields_bindParameters _ _)).bind
  rintro _ _ bound otherBound ⟨⟨-, reached⟩, names, otherNames⟩
  rw [nothing, List.nil_append] at names
  rw [otherNothing, List.nil_append] at otherNames
  have withParameters : State.Renamed (Renaming.declare [] definition.parameters second.parameters)
      bound otherBound := by
    rw [← List.take_append_drop values.length definition.parameters,
      ← List.take_append_drop values.length second.parameters, Renaming.declare_append (partly _)]
    apply reached.renamed.hiddenAll
    · rw [names]
      exact fits.parameters
    · rw [otherNames]
      exact otherFits.parameters
  apply ((renamed_bindReturns returns types withParameters).and (yields_bindReturns _ _)
    (yields_bindReturns _ _)).mono
  rintro bindings otherBindings later otherLater ⟨⟨same, reached⟩, allNames, otherAllNames⟩
  refine ⟨same, ?_⟩
  rw [← List.take_append_drop types.length definition.returns,
    ← List.take_append_drop types.length second.returns, Renaming.declare_append (partlyReturns _)]
  apply reached.renamed.hiddenAll
  · rw [allNames, names]
    exact fits.returns
  · rw [otherAllNames, otherNames]
    exact otherFits.returns

/-! ## Bodies -/

theorem renamed_spillReturns {sources others : List Binding}
    (same : List.Forall₂ Binding.Same sources others) (index : Nat) :
    Step.Renamed visible visible Eq (spillReturns index sources) (spillReturns index others) := by
  induction same generalizing index with
  | nil => exact .pure rfl
  | cons first _ ih =>
      rw [spillReturns, spillReturns, first.slot, first.type]
      apply Step.Renamed.write_bind fun _ => rfl
      intro value
      apply (Step.Renamed.spill visible index).bind
      rintro slot _ rfl
      exact .modify_bind (fun _ => rfl) (ih (index + 1))

theorem renamed_returnValues {sources others : List Binding}
    (same : List.Forall₂ Binding.Same sources others) :
    Step.Renamed visible visible Eq (returnValues sources) (returnValues others) := by
  cases same with
  | nil => exact .modify fun _ => rfl
  | cons first rest =>
      rw [returnValues, returnValues, first.slot, first.type, rest.length_eq]
      apply (Step.Renamed.reserveSpills visible _).bind
      intro _ _ _
      apply Step.Renamed.write_bind fun _ => rfl
      intro value
      apply (renamed_spillReturns rest 0).bind
      intro _ _ _
      exact .modify fun _ => rfl

/-- The same pool and, up to the names of variables, the same module. -/
def Progress.anonymous (progress : Progress) : Progress :=
  { progress with module := progress.module.anonymous }

/-- Functions start alike. -/
theorem Progress.renamed_begin {progress other : Progress}
    (same : progress.anonymous = other.anonymous) (name : String) (signature : Signature) :
    State.Renamed [] (progress.begin name signature) (other.begin name signature) := by
  obtain ⟨spills, module⟩ := Progress.mk.inj same
  exact ⟨rfl, rfl, spills, module, fun _ _ _ => rfl⟩

end Lowering

open Lowering

namespace Definition

variable {context : Context} {definition other : Definition} {signature : Signature}

/-- A function is written in the same way. -/
theorem together_writeBody (renamed : definition.Renamed other)
    (apart : definition.initialisesApart = true) (otherApart : other.initialisesApart = true)
    (fits : definition.Fits signature.parameters.length signature.results.length)
    (otherFits : other.Fits signature.parameters.length signature.results.length)
    {progress otherProgress : Progress} (same : progress.anonymous = otherProgress.anonymous)
    (name : String) :
    Together (fun _ _ last otherLast => ∃ later, State.Renamed later last otherLast)
      ((definition.writeBody context signature).after (progress.begin name signature))
      ((other.writeBody context signature).after (otherProgress.begin name signature)) := by
  obtain ⟨inner, inside⟩ := renamed.body
  have starts := Progress.renamed_begin same name signature
  have values : (progress.begin name signature).draft.function.parameters.length =
      signature.parameters.length := by
    rw [← map_type_parameters progress name signature, List.length_map]
  rw [← values] at fits otherFits
  rw [writeBody, writeBody, Step.after_bind, Step.after_bind, Step.after_inspect, Step.after_inspect]
  dsimp only
  rw [← bind_assoc, ← bind_assoc]
  apply (together_header renamed fits otherFits starts rfl rfl).bind
  rintro returns otherReturns prepared otherPrepared ⟨sameReturns, states⟩
  have finishes {visible : Renaming} : Step.Renamed visible visible Eq
      (do if !(← Step.inspect fun state => state.draft.isClosed) then Lowering.returnValues returns)
      (do if !(← Step.inspect fun state => state.draft.isClosed) then Lowering.returnValues otherReturns) := by
    apply (Step.Renamed.isClosed visible).bind
    rintro isClosed _ rfl
    split
    · exact renamed_returnValues sameReturns
    · exact .pure rfl
  have performs : Step.Renamed _ inner Eq (Statement.lowerEach context definition.body)
      (Statement.lowerEach context other.body) := renamed_statements inside apart otherApart
  have rest := performs.inBlock.bind fun _ _ _ => finishes
  apply (rest states).mono
  rintro _ _ _ _ ⟨-, reached⟩
  exact ⟨_, reached.renamed⟩

/-- A function is added to the module in the same way, if it is at all. -/
theorem lower_renamed (renamed : definition.Renamed other)
    (apart : definition.initialisesApart = true) (otherApart : other.initialisesApart = true)
    (fits : ∀ signature, context.signatures.lookup definition.name = some signature →
      definition.Fits signature.parameters.length signature.results.length ∧
        other.Fits signature.parameters.length signature.results.length)
    {progress otherProgress : Progress} (same : progress.anonymous = otherProgress.anonymous) :
    (definition.lower context progress).toOption.map Progress.anonymous =
      (other.lower context otherProgress).toOption.map Progress.anonymous := by
  rw [lower, lower, ← renamed.name]
  cases found : context.signatures.lookup definition.name with
  | none => rfl
  | some signature =>
      obtain ⟨fitsHeader, otherFitsHeader⟩ := fits signature found
      have written : Together _ ((definition.writeBody context signature).after _) _ :=
        together_writeBody renamed apart otherApart fitsHeader otherFitsHeader same definition.name
      dsimp only
      generalize (definition.writeBody context signature).after _ = outcome at written
      generalize (other.writeBody context signature).after _ = otherOutcome at written
      cases written with
      | error => rfl
      | @ok _ _ last otherLast states =>
          obtain ⟨visible, states⟩ := states
          have function : last.draft.function.anonymous = otherLast.draft.function.anonymous :=
            congrArg Ir.Draft.function states.draft
          have module : (last.module.pushFunction last.draft.function).2.anonymous =
              (otherLast.module.pushFunction otherLast.draft.function).2.anonymous := by
            rw [Ir.Module.anonymous_pushFunction, Ir.Module.anonymous_pushFunction, function, states.module]
          show some (Progress.anonymous _) = some (Progress.anonymous _)
          rw [Progress.anonymous, Progress.anonymous, module, states.spills]

/-- Definitions are added to the module in the same way, if they all are. -/
theorem lowerEach_renamed {definitions others : List Definition}
    (renamed : List.Forall₂ Definition.Renamed definitions others)
    (apart : ∀ definition ∈ definitions, definition.initialisesApart = true)
    (otherApart : ∀ definition ∈ others, definition.initialisesApart = true)
    (fits : ∀ definition ∈ definitions ++ others, ∀ signature,
      context.signatures.lookup definition.name = some signature →
        definition.Fits signature.parameters.length signature.results.length)
    {progress otherProgress : Progress} (same : progress.anonymous = otherProgress.anonymous) :
    (lowerEach context progress definitions).toOption.map Progress.anonymous =
      (lowerEach context otherProgress others).toOption.map Progress.anonymous := by
  induction renamed generalizing progress otherProgress with
  | nil => exact congrArg some same
  | @cons definition other definitions others first _ ih =>
      rw [List.forall_mem_cons] at apart otherApart
      have head : (definition.lower context progress).toOption.map Progress.anonymous =
          (other.lower context otherProgress).toOption.map Progress.anonymous := by
        apply lower_renamed first apart.1 otherApart.1 _ same
        intro signature isSignature
        exact ⟨fits definition (by simp) signature isSignature,
          fits other (by simp) signature (first.name ▸ isSignature)⟩
      rw [lowerEach, lowerEach, first.name]
      cases added : definition.lower context progress with
      | error fault =>
          rw [added] at head
          cases otherAdded : other.lower context otherProgress with
          | error otherFault => rfl
          | ok otherLater =>
              rw [otherAdded] at head
              cases head
      | ok later =>
          rw [added] at head
          cases otherAdded : other.lower context otherProgress with
          | error otherFault =>
              rw [otherAdded] at head
              cases head
          | ok otherLater =>
              rw [otherAdded] at head
              apply ih apart.2 otherApart.2 _ (Option.some.inj head)
              intro definition isDefinition
              exact fits definition (by
                rcases List.mem_append.mp isDefinition with member | member <;> simp [member])

/-- Signatures do not have the names of variables. -/
theorem signatures_renamed {definitions others : List Definition}
    (renamed : List.Forall₂ Definition.Renamed definitions others) (types : TypeNames)
    (known : Signatures) :
    signatures types known definitions = signatures types known others := by
  induction renamed generalizing known with
  | nil => rfl
  | @cons definition other _ _ first _ ih =>
      have same (id : Ir.FunctionId) : definition.signature types id = other.signature types id := by
        rw [signature, signature, first.name, first.parameters, first.returns]
      rw [signatures, signatures, same, first.name]
      simp only [ih]

end Definition

/-- A program fits the signatures that are collected from it. -/
theorem Block.Fits.lookup {program : Block} (fits : program.Fits) {types : TypeNames}
    {signatures : Signatures}
    (collected : Definition.signatures types .empty program.functions = .ok signatures)
    {definition : Definition} (isDefinition : definition ∈ program.functions) {signature : Signature}
    (isSignature : signatures.lookup definition.name = some signature) :
    definition.Fits signature.parameters.length signature.results.length := by
  obtain ⟨added, areAll, describe⟩ := signatures_inv collected
  have corresponds : List.Forall₂ (fun signature definition => ∃ index,
      Describes types index definition signature) signatures.all program.functions := by
    have weaker := describe.imp
      (S := fun (pair : Definition × Nat) signature => ∃ index, Describes types index pair.1 signature)
      fun _ _ describes => ⟨_, describes⟩
    rw [areAll, ← List.zipIdx_map_fst Signatures.empty.all.length program.functions]
    exact (List.forall₂_map_right_iff).mpr weaker.flip
  obtain ⟨meant, isMeant, index, describes⟩ := find?_reverse_of_forall₂ corresponds
    (fun other => other.name == definition.name)
    (by rintro entry other ⟨_, describes⟩; rw [describes.name]) isSignature
  rw [describes.length_parameters, describes.length_results]
  exact fits definition isDefinition meant isMeant

/-- Programs that differ in the names of variables are lowered to the same module up to the names of slots,
if they are lowered at all. -/
theorem Block.toModule_renamed {program other : Block} (renamed : program.Renamed other)
    (apart : ∀ definition ∈ program.functions, definition.initialisesApart = true)
    (otherApart : ∀ definition ∈ other.functions, definition.initialisesApart = true)
    (fits : program.Fits) (otherFits : other.Fits) (dialect : Dialect) (types : TypeNames)
    (moduleName : String) :
    (program.toModule dialect types moduleName).toOption.map Ir.Module.anonymous =
      (other.toModule dialect types moduleName).toOption.map Ir.Module.anonymous := by
  obtain ⟨_, renamed⟩ := renamed
  obtain ⟨strays, functions⟩ := Block.functions_of_renamedEach renamed
  have sameSignatures := Definition.signatures_renamed functions types .empty
  have modules (outcome : Except Error Progress) :
      (outcome >>= fun progress => pure progress.module).toOption.map Ir.Module.anonymous =
        (outcome.toOption.map Progress.anonymous).map Progress.module := by
    cases outcome <;> rfl
  rw [Block.toModule, Block.toModule, Block.definitions_eq, Block.definitions_eq, strays]
  cases other.strays with
  | cons fault more => rfl
  | nil =>
      show Option.map _ (Except.toOption (Definition.signatures types .empty program.functions >>= _)) =
        Option.map _ (Except.toOption (Definition.signatures types .empty other.functions >>= _))
      cases collected : Definition.signatures types .empty other.functions with
      | error error =>
          rw [sameSignatures, collected]
          rfl
      | ok signatures =>
          have ownCollected := sameSignatures.trans collected
          let lowered := Definition.lowerEach ⟨dialect, types, signatures⟩ ⟨.empty, .empty moduleName⟩
          have lowers : (lowered program.functions).toOption.map Progress.anonymous =
              (lowered other.functions).toOption.map Progress.anonymous := by
            apply Definition.lowerEach_renamed functions apart otherApart _ rfl
            intro definition isDefinition signature isSignature
            rcases List.mem_append.mp isDefinition with member | member
            · exact fits.lookup ownCollected member isSignature
            · exact otherFits.lookup collected member isSignature
          rw [ownCollected]
          show (lowered program.functions >>= fun progress => pure progress.module).toOption.map _ =
            (lowered other.functions >>= fun progress => pure progress.module).toOption.map _
          rw [modules, modules, lowers]

/-- A variable of an inner block, that of a loop and that of its body have the names of variables in front of
them. -/
def reusedNames : Block :=
  [.definition "f" [⟨"a", ""⟩] [⟨"r", ""⟩]
    [.declaration [⟨"x", ""⟩] (some (.identifier "a")),
      .block [.declaration [⟨"y", ""⟩] (some (.identifier "x")),
        .declaration [⟨"x", ""⟩] (some (.identifier "y")),
        .assignment ["r"] (.identifier "x")],
      .loop [.declaration [⟨"y", ""⟩] (some (.identifier "x"))] (.identifier "y")
        [.assignment ["y"] (.identifier "a")]
        [.declaration [⟨"a", ""⟩] (some (.identifier "y")), .assignment ["r"] (.identifier "a")]]]

/-- The same with a name of its own for each variable. -/
def ownNames : Block :=
  [.definition "f" [⟨"a", ""⟩] [⟨"r", ""⟩]
    [.declaration [⟨"b", ""⟩] (some (.identifier "a")),
      .block [.declaration [⟨"c", ""⟩] (some (.identifier "b")),
        .declaration [⟨"d", ""⟩] (some (.identifier "c")),
        .assignment ["r"] (.identifier "d")],
      .loop [.declaration [⟨"e", ""⟩] (some (.identifier "b"))] (.identifier "e")
        [.assignment ["e"] (.identifier "a")]
        [.declaration [⟨"g", ""⟩] (some (.identifier "e")), .assignment ["r"] (.identifier "g")]]]

theorem reusedNames_renamed : reusedNames.Renamed ownNames := by
  refine ⟨[], ?_⟩
  repeat' first | rfl | decide | constructor

theorem Block.toModule_renamed_reusedNames :
    reusedNames.Renamed ownNames ∧
      (∀ definition ∈ reusedNames.functions, definition.initialisesApart = true) ∧
      (∀ definition ∈ ownNames.functions, definition.initialisesApart = true) ∧
      reusedNames.Fits ∧ ownNames.Fits ∧
      (reusedNames.toModule (.empty .strict) .standard "m").toOption.map Ir.Module.anonymous =
        (ownNames.toModule (.empty .strict) .standard "m").toOption.map Ir.Module.anonymous := by
  have apart : ∀ definition ∈ reusedNames.functions, definition.initialisesApart = true := by
    decide +kernel
  have otherApart : ∀ definition ∈ ownNames.functions, definition.initialisesApart = true := by
    decide +kernel
  have fits : reusedNames.Fits := Block.fits_of_distinct (by decide +kernel)
  have otherFits : ownNames.Fits := Block.fits_of_distinct (by decide +kernel)
  exact ⟨reusedNames_renamed, apart, otherApart, fits, otherFits,
    Block.toModule_renamed reusedNames_renamed apart otherApart fits otherFits _ _ _⟩

/-- Two functions of one name. The header of the second takes the slot of the last parameter from the first,
where the other parameter has the same name. -/
def clashingParameters : Block :=
  [.definition "f" [⟨"x", ""⟩, ⟨"x", ""⟩] []
      [.declaration [⟨"a", ""⟩] (some (.identifier "x"))],
    .definition "f" [⟨"p", ""⟩] [] []]

/-- The same with a name of its own for each variable. -/
def distinctParameters : Block :=
  [.definition "f" [⟨"y", ""⟩, ⟨"z", ""⟩] []
      [.declaration [⟨"a", ""⟩] (some (.identifier "z"))],
    .definition "f" [⟨"p", ""⟩] [] []]

/-- The names of parameters matter where there are more of them than the header has: one of the two programs is
lowered and the other one is not. -/
theorem Block.not_toModule_renamed_clashingParameters :
    ¬ ∀ program other : Block, program.Renamed other →
      (∀ definition ∈ program.functions, definition.initialisesApart = true) →
      (∀ definition ∈ other.functions, definition.initialisesApart = true) →
      ∀ (dialect : Dialect) (types : TypeNames) (moduleName : String),
        (program.toModule dialect types moduleName).toOption.map Ir.Module.anonymous =
          (other.toModule dialect types moduleName).toOption.map Ir.Module.anonymous := by
  intro same
  have renamed : clashingParameters.Renamed distinctParameters := by
    refine ⟨[], ?_⟩
    repeat' first | rfl | decide | constructor
  have both := same clashingParameters distinctParameters renamed (by decide +kernel)
    (by decide +kernel) (.empty .strict) .standard "m"
  have isOk : (clashingParameters.toModule (.empty .strict) .standard "m").isOk = true := by
    decide +kernel
  have fails : (distinctParameters.toModule (.empty .strict) .standard "m").isOk = false := by
    decide +kernel
  obtain ⟨module, lowered⟩ := exists_of_isOk isOk
  rw [lowered] at both
  cases otherLowered : distinctParameters.toModule (.empty .strict) .standard "m" with
  | ok other =>
      rw [otherLowered] at fails
      cases fails
  | error error =>
      rw [otherLowered] at both
      cases both

end YulLowering
