import YulLowering.Proofs.Naming
import YulLowering.Proofs.Spilling
import YulLowering.Proofs.Structure
import YulLowering.Proofs.Violations.Programs

/-!
# The header of a lowered function

Every definition becomes one function, at the same position and of the same name. Its parameters and the
types of its results are those of the last definition of that name, which is the definition itself unless a
later one has taken its name. What it returns has to come from return variables of its own, so where the
two definitions differ a function may return nothing although its header announces a result.
-/

namespace YulLowering

/-- Two definitions with parameters and return variables of the same types. -/
structure Definition.SameHeader (definition other : Definition) : Prop where
  parameters : definition.parameters.map TypedName.typeName = other.parameters.map TypedName.typeName
  returns : definition.returns.map TypedName.typeName = other.returns.map TypedName.typeName

namespace Ir.Function

/-- A function has the parameters and announces the results that a definition declares. -/
structure HeadedBy (types : Lowering.TypeNames) (definition : Definition) (function : Function) :
    Prop where
  parameters : types.resolveAll (definition.parameters.map TypedName.typeName) =
    .ok (function.parameters.map Value.type)
  resultCount : function.resultCount = definition.returns.length
  resultType : ∃ results,
    types.resolveAll (definition.returns.map TypedName.typeName) = .ok results ∧
      function.resultType = results.head?.getD .void

/-- A function returns in one block, and there it returns a value under a condition. -/
def ReturnsValue (function : Function) (condition : Prop) : Prop :=
  ∃ exit block value, function.block? exit = some block ∧ block.terminator = .ret value ∧
    (value.isSome ↔ condition) ∧
    ∀ id other result, function.block? id = some other → other.terminator = .ret result → id = exit

theorem ReturnsValue.congr {function : Function} {condition other : Prop}
    (returns : function.ReturnsValue condition) (same : condition ↔ other) :
    function.ReturnsValue other := by
  obtain ⟨exit, block, value, found, isReturn, carries, unique⟩ := returns
  exact ⟨exit, block, value, found, isReturn, carries.trans same, unique⟩

/-- A function announces its results as its definition does, and returns a value exactly if it announces
one. -/
structure Heads (types : Lowering.TypeNames) (definition : Definition) (function : Function) : Prop
    extends function.HeadedBy types definition where
  returns : function.ReturnsValue (function.resultType ≠ .void)

/-- Definitions of one header are interchangeable. -/
theorem HeadedBy.of_sameHeader {types : Lowering.TypeNames} {definition other : Definition}
    {function : Function} (headed : function.HeadedBy types other)
    (same : definition.SameHeader other) : function.HeadedBy types definition where
  parameters := by
    rw [same.parameters]
    exact headed.parameters
  resultCount := by
    have lengths := congrArg List.length same.returns
    rw [List.length_map, List.length_map] at lengths
    rw [lengths]
    exact headed.resultCount
  resultType := by
    rw [same.returns]
    exact headed.resultType

/-- Where no type is `void`, a result is announced exactly if there are return variables. -/
theorem HeadedBy.resultType_ne_void {types : Lowering.TypeNames} {definition : Definition}
    {function : Function} (headed : function.HeadedBy types definition) (valued : types.Valued) :
    function.resultType ≠ .void ↔ definition.returns ≠ [] := by
  obtain ⟨results, resolved, isFirst⟩ := headed.resultType
  have length : results.length = definition.returns.length := by
    simpa using Lowering.length_resolveAll resolved
  have areValued := Lowering.TypeNames.resolveAll_ne_void valued resolved
  rw [isFirst, ← List.length_pos_iff, ← length]
  cases results with
  | nil => simp
  | cons type rest => simp [areValued type List.mem_cons_self]

end Ir.Function

namespace Lowering

/-- The function of a definition has the header of its signature. -/
theorem Origin.headedBy {context : Context} {last : Progress} {definition other : Definition}
    {function : Ir.Function} {index : Nat} (origin : Origin context last definition function)
    (describes : Describes context.types index other origin.signature) :
    function.HeadedBy context.types other where
  parameters := by
    rw [origin.grows.parameters, map_type_parameters]
    exact describes.parameters
  resultCount := origin.resultCount_eq.trans describes.length_results
  resultType := ⟨_, describes.results, origin.grows.resultType⟩

/-- A function returns a value if its signature has results and it has return variables of its own. -/
theorem Origin.returnsValue {context : Context} {last : Progress} {definition : Definition}
    {function : Ir.Function} (origin : Origin context last definition function) :
    function.ReturnsValue (origin.signature.results ≠ [] ∧ definition.returns ≠ []) := by
  obtain ⟨exit, block, -, found, -⟩ := origin.shape
  obtain ⟨end_, isEnd, -⟩ := origin.complete.returns
  obtain rfl : exit = end_ := (isEnd exit).mp ⟨_, _, found, rfl⟩
  refine ⟨exit, _, _, found, rfl, ?_, ?_⟩
  · have lengths := congrArg List.length origin.run.described
    rw [List.length_map, List.length_zip, List.length_map] at lengths
    rw [directResult, Option.isSome_map, List.isSome_head?, ← List.length_pos_iff, lengths,
      ← List.length_pos_iff, ← List.length_pos_iff]
    omega
  · intro id other result isBlock returns
    exact (isEnd id).mp ⟨other, result, isBlock, returns⟩

end Lowering

/-- Every definition becomes a function of its name at its position. The function has the header of the last
definition of that name, and where it has the header of its own definition it returns a value exactly if it
announces one. -/
theorem Block.headers_of_toModule {dialect : Dialect} {types : Lowering.TypeNames}
    {default name : String} {program : Block} {definitions : List Definition} {module : Ir.Module}
    (made : Lowering.TypeNames.ofDefaultName default = .ok types)
    (areDefinitions : program.definitions = .ok definitions)
    (lowered : program.toModule dialect types name = .ok module) :
    module.functions.length = definitions.length ∧
      ∀ (index : Nat) (definition : Definition), definitions[index]? = some definition →
        ∃ (meant : Definition) (function : Ir.Function),
          Definition.latest? definitions definition.name = some meant ∧
          module.functions[index]? = some function ∧ function.name = definition.name ∧
          function.HeadedBy types meant ∧
          function.ReturnsValue (meant.returns ≠ [] ∧ definition.returns ≠ []) ∧
          (definition.SameHeader meant → function.Heads types definition) := by
  have valued := Lowering.TypeNames.valued_of_ofDefaultName made
  obtain ⟨compiled⟩ := Lowering.toModule_inv lowered
  obtain rfl : compiled.definitions = definitions :=
    Except.ok.inj (compiled.areDefinitions.symm.trans areDefinitions)
  refine ⟨compiled.length_functions, ?_⟩
  intro index definition isDefinition
  obtain ⟨entry, rfl⟩ := compiled.entry_of_definition isDefinition
  obtain ⟨position, other, isOther, isLatest, -⟩ := entry.meant
  have describes := other.describes
  rw [isOther] at describes
  have headed := entry.origin.headedBy describes
  have count : entry.origin.signature.results ≠ [] ↔ other.definition.returns ≠ [] := by
    rw [← List.length_pos_iff, ← List.length_pos_iff, describes.length_results]
  have returns := entry.origin.returnsValue.congr (and_congr_left' count)
  refine ⟨other.definition, entry.function, isLatest, entry.isFunction, entry.name_function, headed,
    returns, ?_⟩
  intro same
  have own := headed.of_sameHeader same
  have announced : other.definition.returns ≠ [] ∧ entry.definition.returns ≠ [] ↔
      entry.function.resultType ≠ .void := by
    rw [← headed.resultType_ne_void valued, ← own.resultType_ne_void valued, and_self]
  exact ⟨own, returns.congr announced⟩

/-- Two functions of one name and one header, with another function between them. -/
def sharedName : Block :=
  [.definition "f" [⟨"a", ""⟩, ⟨"b", "u8"⟩] [⟨"r", "u8"⟩, ⟨"s", ""⟩]
      [.assignment ["r"] (.identifier "b")],
    .definition "g" [⟨"x", "bool"⟩] []
      [.conditional (.identifier "x") [.expression (.call "g" [.identifier "x"])]],
    .definition "f" [⟨"c", ""⟩, ⟨"d", "u8"⟩] [⟨"t", "u8"⟩, ⟨"u", ""⟩] []]

theorem Block.headers_of_toModule_sharedName :
    ∃ module, Lowering.TypeNames.ofDefaultName "u256" = .ok .standard ∧
      sharedName.definitions = .ok sharedName.functions ∧
      sharedName.toModule (.empty .strict) .standard "m" = .ok module ∧
      module.functions.length = sharedName.functions.length ∧
      ∀ (index : Nat) (definition : Definition), sharedName.functions[index]? = some definition →
        ∃ (meant : Definition) (function : Ir.Function),
          Definition.latest? sharedName.functions definition.name = some meant ∧
          module.functions[index]? = some function ∧ function.name = definition.name ∧
          function.HeadedBy .standard meant ∧
          function.ReturnsValue (meant.returns ≠ [] ∧ definition.returns ≠ []) ∧
          (definition.SameHeader meant → function.Heads .standard definition) := by
  have isOk : (sharedName.toModule (.empty .strict) .standard "m").isOk = true := by decide +kernel
  have made : Lowering.TypeNames.ofDefaultName "u256" = .ok .standard := by decide +kernel
  have areDefinitions : sharedName.definitions = .ok sharedName.functions := rfl
  obtain ⟨module, lowered⟩ := Lowering.exists_of_isOk isOk
  exact ⟨module, made, areDefinitions, lowered,
    Block.headers_of_toModule made areDefinitions lowered⟩

/-- Two functions of one name: the first has a parameter and the second a result. -/
def clashingHeaders : Block :=
  [.definition "f" [⟨"a", ""⟩] [] [], .definition "f" [] [⟨"r", ""⟩] []]

/-- The first function is written under the header of the second: its parameter is gone, and it announces a
result that it does not return. -/
theorem Block.not_heads_of_toModule_clashingHeaders :
    ∃ module, clashingHeaders.definitions = .ok clashingHeaders.functions ∧
      clashingHeaders.toModule (.empty .strict) .standard "m" = .ok module ∧
      ¬ ∀ (index : Nat) (definition : Definition), clashingHeaders.functions[index]? = some definition →
        ∃ function, module.functions[index]? = some function ∧
          function.name = definition.name ∧ function.Heads .standard definition := by
  have agrees : (clashingHeaders.toModule (.empty .strict) .standard "m").map (fun module =>
      module.functions[0]?.map Ir.Function.parameters) = .ok (some []) := by decide +kernel
  cases lowered : clashingHeaders.toModule (.empty .strict) .standard "m" with
  | error error =>
      rw [lowered] at agrees
      cases agrees
  | ok module =>
      refine ⟨module, rfl, rfl, ?_⟩
      rw [lowered] at agrees
      obtain ⟨function, isFunction, withoutParameters⟩ :=
        Option.map_eq_some_iff.mp (Except.ok.inj agrees)
      intro heads
      obtain ⟨other, isOther, -, headed⟩ := heads 0 ⟨"f", [⟨"a", ""⟩], [], []⟩ rfl
      obtain rfl := Option.some.inj (isFunction.symm.trans isOther)
      have parameters := headed.parameters
      rw [withoutParameters] at parameters
      cases parameters

end YulLowering
