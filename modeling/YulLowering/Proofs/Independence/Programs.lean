import YulLowering.Proofs.Independence.Statements
import YulLowering.Proofs.Linking.Programs

/-!
# Functions are compiled independently of each other

The functions of a program are lowered one after the other into one module, and they share its spill slots.
What becomes of a function depends on its definition all the same, and on what the names that it calls mean:
which of them are builtins, and what types the results of the others have.
-/

namespace YulLowering

namespace Ir

/-- Functions of two modules that have the same name. -/
def Module.SameName (module other : Module) (id otherId : FunctionId) : Prop :=
  ∃ function otherFunction, module.function? id = some function ∧
    other.function? otherId = some otherFunction ∧ function.name = otherFunction.name

end Ir

/-- A called name means the same in two programs: the same builtin, or else functions whose results have the
same types. -/
structure CallsAlike (types : Lowering.TypeNames) (dialect otherDialect : Dialect)
    (definitions others : List Definition) (name : String) : Prop where
  builtin : dialect.lookup name = otherDialect.lookup name
  function : dialect.lookup name = none →
    ∃ callee ∈ definitions, ∃ otherCallee ∈ others, callee.name = name ∧ otherCallee.name = name ∧
      types.resolveAll (callee.returns.map TypedName.typeName) =
        types.resolveAll (otherCallee.returns.map TypedName.typeName)

namespace Lowering

variable {types : TypeNames}

/-! ## One function in two programs -/

section

variable {related : Ir.FunctionId → Ir.FunctionId → Prop} {first second : Context}
  {last otherLast : Progress} {definition : Definition} {function otherFunction : Ir.Function}

/-- Where the lowering of a function starts, its draft depends on the types of its signature only. -/
theorem draft_begin_eq {signature other : Signature} (parameters : signature.parameters = other.parameters)
    (results : signature.results = other.results) (before otherBefore : Progress) (name : String) :
    (before.begin name signature).draft = (otherBefore.begin name other).draft := by
  rw [Progress.begin, Progress.begin, Signature.resultType, Signature.resultType, parameters, results]

/-- The lowerings of one function in two programs start from states that are alike. -/
theorem alike_begin {signature other : Signature} {before otherBefore : Progress}
    (pooled : before.Pooled) (otherPooled : otherBefore.Pooled)
    (parameters : signature.parameters = other.parameters)
    (results : signature.results = other.results) (name : String) :
    State.Alike related 0 (before.begin name signature) (otherBefore.begin name other) where
  draft := by
    rw [draft_begin_eq parameters results before otherBefore name]
    exact ⟨⟨rfl, rfl, rfl, rfl, rfl, .cons (.empty _ _) .nil, rfl, rfl⟩, rfl⟩
  scope := rfl
  loops := rfl
  supplied := ⟨pooled, Nat.zero_le _⟩
  otherSupplied := ⟨otherPooled, Nat.zero_le _⟩

/-- The functions that are written for one definition in two programs are alike if the definition has the
same signature in both, and if the names that it calls are resolved alike. -/
theorem Origin.alike (origin : Origin first last definition function)
    (other : Origin second otherLast definition otherFunction)
    (parameters : origin.signature.parameters = other.signature.parameters)
    (results : origin.signature.results = other.signature.results)
    (congruence : Congruent related first second fun name => name ∈ definition.calls) :
    function.Alike related otherFunction := by
  -- Both functions are written in the same stages. Each stage starts from states that are alike and ends in
  -- such states; the spill slots of the two programs need not be equally many for that.
  have begun : State.Alike related 0 (origin.before.begin definition.name origin.signature)
      (other.before.begin definition.name other.signature) :=
    alike_begin origin.pooled other.pooled parameters results definition.name
  have values : (other.before.begin definition.name other.signature).draft.function.parameters =
      (origin.before.begin definition.name origin.signature).draft.function.parameters := by
    rw [draft_begin_eq parameters results origin.before other.before definition.name]
  have otherStarts := after_bindParameters definition.parameters
    (other.before.begin definition.name other.signature).draft.function.parameters
    (other.before.begin definition.name other.signature)
  rw [values] at otherStarts
  obtain ⟨-, started⟩ := (agree_bindParameters congruence definition.parameters _).after begun
    (after_bindParameters _ _ _) otherStarts
  have otherBinds := other.run.binds
  rw [← results, values] at otherBinds
  obtain ⟨sameReturns, prepared⟩ := (agree_bindReturns congruence definition.returns _).after started
    origin.run.binds otherBinds
  obtain ⟨-, finished⟩ := (agree_inBlock (agree_statements congruence definition.body fun _ => id)).after
    prepared origin.run.part.after other.run.part.after
  have otherReturns := after_returnValues other.returns other.finish.state
  rw [← Except.ok.inj sameReturns] at otherReturns
  obtain ⟨-, returned⟩ := (agree_returnValues congruence origin.returns).after finished
    (after_returnValues _ _) otherReturns
  rw [origin.function_eq, other.function_eq, ← Except.ok.inj sameReturns]
  exact returned.draft.function

end

/-! ## Whole programs -/

namespace Compiled

variable {dialect otherDialect : Dialect} {program other : Block} {module otherModule : Ir.Module}

/-- Where names are distinct, a name that no builtin has is resolved to the function of that name. -/
theorem resolveCall_of_mem (compiled : Compiled dialect types program module)
    (distinct : (compiled.definitions.map Definition.name).Nodup) {definition : Definition}
    (member : definition ∈ compiled.definitions)
    (notBuiltin : dialect.lookup definition.name = none) :
    ∃ signature, Context.resolveCall ⟨dialect, types, compiled.signatures⟩ definition.name =
        .ok (.function signature) ∧
      types.resolveAll (definition.returns.map TypedName.typeName) = .ok signature.results := by
  obtain ⟨index, isDefinition⟩ := List.mem_iff_getElem?.mp member
  obtain ⟨entry, rfl⟩ := compiled.entry_of_definition isDefinition
  have found := lookup_of_mem (by rwa [compiled.names_eq]) (List.mem_of_getElem? entry.isSignature)
  rw [entry.describes.name] at found
  refine ⟨entry.signature, ?_, entry.describes.results⟩
  rw [Context.resolveCall, notBuiltin, found]

/-- Where names are distinct, the function of a definition has been written for the signature of the
definition. -/
theorem origin_of_definition (compiled : Compiled dialect types program module)
    (distinct : (compiled.definitions.map Definition.name).Nodup) {index : Nat}
    {definition : Definition} (isDefinition : compiled.definitions[index]? = some definition) :
    ∃ function, module.functions[index]? = some function ∧
      ∃ origin : Origin ⟨dialect, types, compiled.signatures⟩ compiled.last definition function,
        Describes types index definition origin.signature := by
  obtain ⟨entry, rfl⟩ := compiled.entry_of_definition isDefinition
  refine ⟨entry.function, entry.isFunction, entry.origin, ?_⟩
  rw [entry.origin_signature distinct]
  exact entry.describes

/-- A name that means the same in two programs is resolved alike in them. -/
theorem resolved_alike (compiled : Compiled dialect types program module)
    (otherCompiled : Compiled otherDialect types other otherModule)
    (distinct : (compiled.definitions.map Definition.name).Nodup)
    (otherDistinct : (otherCompiled.definitions.map Definition.name).Nodup) {name : String}
    (calls : CallsAlike types dialect otherDialect compiled.definitions otherCompiled.definitions
      name) :
    ∃ target otherTarget,
      Context.resolveCall ⟨dialect, types, compiled.signatures⟩ name = .ok target ∧
      Context.resolveCall ⟨otherDialect, types, otherCompiled.signatures⟩ name = .ok otherTarget ∧
      target.Alike (module.SameName otherModule) otherTarget := by
  have builtin := calls.builtin
  cases found : dialect.lookup name with
  | some isBuiltin =>
      rw [found] at builtin
      refine ⟨.builtin isBuiltin, .builtin isBuiltin, ?_, ?_, .builtin isBuiltin⟩
      · rw [Context.resolveCall, found]
      · rw [Context.resolveCall, ← builtin]
  | none =>
      rw [found] at builtin
      obtain ⟨callee, isCallee, otherCallee, isOther, rfl, named, sameResults⟩ :=
        calls.function found
      obtain ⟨signature, resolved, results⟩ := compiled.resolveCall_of_mem distinct isCallee found
      obtain ⟨otherSignature, otherResolved, otherResults⟩ :=
        otherCompiled.resolveCall_of_mem otherDistinct isOther (named ▸ builtin.symm)
      rw [named] at otherResolved
      obtain ⟨function, -, -, isFunction, isName, -⟩ := compiled.function_of_resolveCall resolved
      obtain ⟨otherFunction, -, -, isOtherFunction, isOtherName, -⟩ :=
        otherCompiled.function_of_resolveCall otherResolved
      rw [results, otherResults] at sameResults
      exact ⟨.function signature, .function otherSignature, resolved, otherResolved,
        .function (Except.ok.inj sameResults)
          ⟨function, otherFunction, isFunction, isOtherFunction, isName.trans isOtherName.symm⟩⟩

end Compiled

end Lowering

/-- Two programs compile a definition to functions that differ in nothing but the numbers of the functions
that they call, and these have the same names. Whatever else the programs and their dialects hold, it is
enough that the names that the definition calls mean the same in both. -/
theorem Block.alike_of_toModule {dialect otherDialect : Dialect} {types : Lowering.TypeNames}
    {name otherName : String} {program other : Block} {definitions others : List Definition}
    {module otherModule : Ir.Module}
    (areDefinitions : program.definitions = .ok definitions)
    (areOthers : other.definitions = .ok others)
    (distinct : (definitions.map Definition.name).Nodup)
    (otherDistinct : (others.map Definition.name).Nodup)
    (lowered : program.toModule dialect types name = .ok module)
    (otherLowered : other.toModule otherDialect types otherName = .ok otherModule)
    {index position : Nat} {definition : Definition}
    (isDefinition : definitions[index]? = some definition)
    (isOther : others[position]? = some definition)
    (calls : ∀ called ∈ definition.calls,
      CallsAlike types dialect otherDialect definitions others called) :
    ∃ function otherFunction, module.functions[index]? = some function ∧
      otherModule.functions[position]? = some otherFunction ∧
      function.Alike (module.SameName otherModule) otherFunction := by
  obtain ⟨compiled⟩ := Lowering.toModule_inv lowered
  obtain ⟨otherCompiled⟩ := Lowering.toModule_inv otherLowered
  obtain rfl : compiled.definitions = definitions :=
    Except.ok.inj (compiled.areDefinitions.symm.trans areDefinitions)
  obtain rfl : otherCompiled.definitions = others :=
    Except.ok.inj (otherCompiled.areDefinitions.symm.trans areOthers)
  obtain ⟨function, isFunction, origin, describes⟩ :=
    compiled.origin_of_definition distinct isDefinition
  obtain ⟨otherFunction, isOtherFunction, otherOrigin, otherDescribes⟩ :=
    otherCompiled.origin_of_definition otherDistinct isOther
  have congruence : Lowering.Congruent (module.SameName otherModule)
      ⟨dialect, types, compiled.signatures⟩ ⟨otherDialect, types, otherCompiled.signatures⟩
      fun called => called ∈ definition.calls :=
    Lowering.congruence_alike rfl fun called isCalled =>
      compiled.resolved_alike otherCompiled distinct otherDistinct (calls called isCalled)
  exact ⟨function, otherFunction, isFunction, isOtherFunction, origin.alike otherOrigin
    (Except.ok.inj (describes.parameters.symm.trans otherDescribes.parameters))
    (Except.ok.inj (describes.results.symm.trans otherDescribes.results)) congruence⟩

/-- A function that adds the two results of another one. -/
def sumOfParts : Definition :=
  ⟨"sum", [⟨"x", ""⟩], [⟨"r", ""⟩],
    [.declaration [⟨"a", ""⟩, ⟨"b", ""⟩] (some (.call "parts" [.identifier "x"])),
      .assignment ["r"] (.call "add" [.identifier "a", .identifier "b"])]⟩

/-- The function before the one that it calls. -/
def sumFirst : Block :=
  [.definition sumOfParts.name sumOfParts.parameters sumOfParts.returns sumOfParts.body,
    .definition "parts" [⟨"x", ""⟩] [⟨"a", ""⟩, ⟨"b", ""⟩] []]

/-- The function after one with more results and after another version of the one that it calls. -/
def sumLast : Block :=
  [.definition "triple" [] [⟨"p", ""⟩, ⟨"q", ""⟩, ⟨"s", ""⟩] [],
    .definition "parts" [⟨"y", ""⟩] [⟨"u", ""⟩, ⟨"v", ""⟩]
      [.assignment ["u"] (.call "mul" [.identifier "y", .identifier "y"])],
    .definition sumOfParts.name sumOfParts.parameters sumOfParts.returns sumOfParts.body]

/-- Builtins of which one adds. -/
def arithmetic : Dialect :=
  ⟨.strict, [.untyped "mul" 2 1 true false, .ofMovability "add" ["", ""] [""] true false]⟩

/-- The names that the function calls mean the same in both programs. -/
theorem callsAlike_sumOfParts :
    ∀ called ∈ sumOfParts.calls,
      CallsAlike .standard addition arithmetic sumFirst.functions sumLast.functions called := by
  have parts : CallsAlike .standard addition arithmetic sumFirst.functions sumLast.functions
      "parts" :=
    ⟨rfl, fun _ => ⟨_, .tail _ (.head _), _, .tail _ (.head _), rfl, rfl, rfl⟩⟩
  have add : CallsAlike .standard addition arithmetic sumFirst.functions sumLast.functions "add" :=
    ⟨rfl, fun absent => nomatch absent⟩
  intro called isCalled
  have isNamed : called ∈ ["parts", "add"] := isCalled
  obtain rfl | rfl : called = "parts" ∨ called = "add" := by simpa using isNamed
  · exact parts
  · exact add

theorem Block.alike_of_toModule_sumOfParts :
    ∃ module otherModule, sumFirst.definitions = .ok sumFirst.functions ∧
      sumLast.definitions = .ok sumLast.functions ∧
      (sumFirst.functions.map Definition.name).Nodup ∧
      (sumLast.functions.map Definition.name).Nodup ∧
      sumFirst.toModule addition .standard "m" = .ok module ∧
      sumLast.toModule arithmetic .standard "n" = .ok otherModule ∧
      sumFirst.functions[0]? = some sumOfParts ∧ sumLast.functions[2]? = some sumOfParts ∧
      (∀ called ∈ sumOfParts.calls,
        CallsAlike .standard addition arithmetic sumFirst.functions sumLast.functions called) ∧
      ∃ function otherFunction, module.functions[0]? = some function ∧
        otherModule.functions[2]? = some otherFunction ∧
        function.Alike (module.SameName otherModule) otherFunction := by
  have isOk : (sumFirst.toModule addition .standard "m").isOk = true := by decide +kernel
  have otherIsOk : (sumLast.toModule arithmetic .standard "n").isOk = true := by decide +kernel
  have distinct : (sumFirst.functions.map Definition.name).Nodup := by decide
  have otherDistinct : (sumLast.functions.map Definition.name).Nodup := by decide
  obtain ⟨module, lowered⟩ := Lowering.exists_of_isOk isOk
  obtain ⟨otherModule, otherLowered⟩ := Lowering.exists_of_isOk otherIsOk
  exact ⟨module, otherModule, rfl, rfl, distinct, otherDistinct, lowered, otherLowered, rfl, rfl,
    callsAlike_sumOfParts, Block.alike_of_toModule rfl rfl distinct otherDistinct lowered
      otherLowered rfl rfl callsAlike_sumOfParts⟩

end YulLowering
