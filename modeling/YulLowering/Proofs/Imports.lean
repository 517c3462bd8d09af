import YulLowering.Proofs.Traces.Programs

/-!
# Imported builtins

A module declares the builtins that its program calls: each once, in the order in which they are called for
the first time, and as the dialect describes them. The calls of builtins in the code agree with the same
descriptions, and the arguments of a builtin that takes literals are constants.
-/

namespace YulLowering

/-! ## First occurrences -/

/-- Add a name to those there are, unless it is one of them. -/
def addName (known : List String) (name : String) : List String :=
  if name ∈ known then known else known ++ [name]

theorem nodup_foldl_addName (names : List String) {known : List String} (distinct : known.Nodup) :
    (names.foldl addName known).Nodup := by
  induction names generalizing known with
  | nil => exact distinct
  | cons name rest ih =>
      rw [List.foldl_cons]
      apply ih
      unfold addName
      split
      · exact distinct
      · next fresh =>
        refine List.nodup_append.mpr ⟨distinct, by simp, ?_⟩
        rintro other isKnown _ isName rfl
        exact fresh (List.mem_singleton.mp isName ▸ isKnown)

/-- To add names one by one is to add each where it occurs for the first time. -/
theorem foldl_addName (names known : List String) :
    names.foldl addName known = known ++ (names.filter fun name => name ∉ known).eraseDups := by
  induction names generalizing known with
  | nil => simp
  | cons name rest ih =>
      rw [List.foldl_cons, ih]
      by_cases isKnown : name ∈ known
      · simp [addName, isKnown]
      · have others : rest.filter (fun other => decide (other ∉ known ++ [name])) =
            (rest.filter fun other => decide (other ∉ known)).filter fun other => !other == name := by
          rw [List.filter_filter]
          apply List.filter_congr
          intro other _
          rw [Bool.and_comm]
          simp [Bool.beq_eq_decide_eq]
        simp only [addName, isKnown, if_false, others, not_false_eq_true, decide_true,
          List.filter_cons_of_pos, List.eraseDups_cons, List.append_assoc, List.singleton_append]

/-! ## Guarantees -/

/-- Whether a dialect has a builtin of a name. -/
def Dialect.has (dialect : Dialect) (name : String) : Bool :=
  (dialect.lookup name).isSome

namespace Ir

/-- The effects are those that a builtin is described with. -/
structure Effects.Describe (effects : Effects) (builtin : Builtin) : Prop where
  movable : effects.movable = builtin.movable
  sideEffectFree : effects.sideEffectFree = builtin.sideEffectFree
  sideEffectFreeIfNoMsize : effects.sideEffectFreeIfNoMsize = builtin.sideEffectFreeIfNoMsize
  invalidatesStorage : effects.invalidatesStorage = builtin.invalidatesStorage
  invalidatesMemory : effects.invalidatesMemory = builtin.invalidatesMemory

/-- A call of the code that carries out a call of the source. Where that names a builtin, the call has the
effects and the result that the builtin is described with, and the arguments are constants if they have to be
literals. -/
def Call.Serves (dialect : Dialect) (types : Lowering.TypeNames) (code : List Instruction)
    (source : YulLowering.Call) (call : Call) : Prop :=
  match dialect.lookup source.callee with
  | none => ∃ id, call.callee = .function id
  | some builtin =>
    (∃ effects, call.callee = .builtin source.callee effects ∧ effects.Describe builtin) ∧
      types.resolveAll builtin.results = .ok (call.dest.map Value.type).toList ∧
      (builtin.literalArguments = true →
        List.Forall₂ (Lowering.Denotes code) source.arguments call.arguments)

/-- The calls of a function are those of a definition, each as often as it is written there. -/
def Function.Serves (dialect : Dialect) (types : Lowering.TypeNames) (definition : Definition)
    (function : Function) : Prop :=
  ∃ calls, function.calls.Perm calls ∧
    List.Forall₂ (Call.Serves dialect types function.instructions) (Event.calls definition.events) calls

/-- A declaration says what the dialect says of the builtin. -/
def External.Describes (dialect : Dialect) (types : Lowering.TypeNames) (external : External) : Prop :=
  ∃ builtin, dialect.lookup external.name = some builtin ∧
    types.resolveAll builtin.parameters = .ok external.parameters ∧
    types.resolveAll builtin.results = .ok external.results ∧
    external.effects.Describe builtin

/-- The builtins that a module declares and calls are those that definitions call. -/
structure Module.Imports (dialect : Dialect) (types : Lowering.TypeNames)
    (definitions : List Definition) (module : Module) : Prop where
  distinct : (module.externals.map External.name).Nodup
  /-- Every builtin that is called is declared, in the order of the first calls. -/
  names : module.externals.map External.name =
    ((definitions.flatMap Definition.calls).filter dialect.has).eraseDups
  described : ∀ external ∈ module.externals, external.Describes dialect types
  calls : List.Forall₂ (fun definition function => function.Serves dialect types definition)
    definitions module.functions

end Ir

namespace Lowering

variable {context : Context} {events : List Event} {state later : State}

/-! ## The table of builtins -/

theorem State.names_imported (state : State) (external : Ir.External) :
    (state.imported external).module.externals.map Ir.External.name =
      addName (state.module.externals.map Ir.External.name) external.name := by
  unfold State.imported Ir.Module.declare addName
  dsimp only
  split
  · next declared found =>
    rw [if_pos]
    exact List.mem_map.mpr ⟨declared, List.mem_of_find?_eq_some found,
      by simpa using List.find?_some found⟩
  · next absent =>
    rw [if_neg, List.map_append]
    · rfl
    · intro isName
      obtain ⟨declared, member, isName⟩ := List.mem_map.mp isName
      have differs := List.find?_eq_none.mp absent declared member
      exact differs (by simpa using isName)

theorem has_of_resolveCall {name : String} {builtin : Builtin}
    (resolved : context.resolveCall name = .ok (.builtin builtin)) : context.dialect.has name = true := by
  rw [Dialect.has, lookup_of_resolveCall resolved]
  rfl

theorem not_has_of_resolveCall {name : String} {signature : Signature}
    (resolved : context.resolveCall name = .ok (.function signature)) :
    context.dialect.has name = false := by
  rw [Dialect.has, (lookups_of_resolveCall resolved).1]
  rfl

/-- An edit declares the builtin that it calls, if it calls one. -/
theorem Edit.names (edit : Edit context events state later) :
    later.module.externals.map Ir.External.name =
      (((Event.calls events).map Call.callee).filter context.dialect.has).foldl addName
        (state.module.externals.map Ir.External.name) := by
  cases edit with
  | quiet quiet => exact congrArg _ quiet.externals
  | enter | leave | write | declare | receiveOne => rfl
  | callFunction call signature arguments resolved =>
      rw [Event.calls_called, List.map_singleton, List.filter_singleton, not_has_of_resolveCall resolved]
      rfl
  | receive call targets signature result arguments first others resolved =>
      show _ = ([call.callee].filter context.dialect.has).foldl addName _
      rw [List.filter_singleton, not_has_of_resolveCall resolved]
      rfl
  | callBuiltin call builtin external arguments resolved isExternal =>
      have found := lookup_of_resolveCall resolved
      have named := (Dialect.mem_of_lookup found).2
      have same : external.name = call.callee := (external_inv isExternal).1.trans named
      rw [Event.calls_called, List.map_singleton, List.filter_singleton, has_of_resolveCall resolved]
      show (state.imported external).module.externals.map Ir.External.name = _
      rw [State.names_imported, same]
      rfl

theorem Edit.sources (edit : Edit context events state later) (sources : context.Sources state.module) :
    context.Sources later.module := by
  cases edit with
  | quiet quiet =>
      unfold Context.Sources
      rwa [quiet.externals]
  | enter | leave | write | declare | callFunction | receiveOne | receive => exact sources
  | callBuiltin call builtin external arguments resolved isExternal =>
      exact (sources.imported resolved isExternal).1

/-- Along a trace the builtins that are called get declared, each where it is called first. -/
theorem Trace.names (trace : Trace context events state later) :
    later.module.externals.map Ir.External.name =
      (((Event.calls events).map Call.callee).filter context.dialect.has).foldl addName
        (state.module.externals.map Ir.External.name) := by
  induction trace with
  | refl => rfl
  | edit edit _ ih =>
      rw [ih, edit.names, Event.calls_append, List.map_append, List.filter_append, List.foldl_append]

theorem Trace.sources (trace : Trace context events state later)
    (sources : context.Sources state.module) : context.Sources later.module := by
  induction trace with
  | refl => exact sources
  | edit edit _ ih => exact ih (edit.sources sources)

/-- Definitions declare the builtins that they call, one definition after the other. -/
theorem externals_of_lowerEach {definitions : List Definition} {before last : Progress}
    (sources : context.Sources before.module)
    (lowered : Definition.lowerEach context before definitions = .ok last) :
    context.Sources last.module ∧
      last.module.externals.map Ir.External.name =
        ((definitions.flatMap Definition.calls).filter context.dialect.has).foldl addName
          (before.module.externals.map Ir.External.name) := by
  induction definitions generalizing before with
  | nil =>
      cases lowered
      exact ⟨sources, rfl⟩
  | cons definition rest ih =>
      obtain ⟨middle, first, others⟩ := lowerEach_cons_inv lowered
      obtain ⟨signature, state, returns, trace, isModule⟩ := trace_of_lower first
      have externals : middle.module.externals = state.module.externals := by
        rw [isModule]
        exact state.externals_reserved (returns.length - 1)
      have middleSources : context.Sources middle.module := by
        unfold Context.Sources
        rw [externals]
        exact trace.sources sources
      obtain ⟨lastSources, lastNames⟩ := ih middleSources others
      have names := trace.names
      rw [Signature.events, Event.calls_append, Event.calls_append, Event.calls_typedNames,
        Event.calls_typedNames, List.nil_append, List.nil_append, Event.calls_inBlock,
        definition.map_callee_events] at names
      refine ⟨lastSources, ?_⟩
      rw [lastNames, externals, names, List.flatMap_cons, List.filter_append, List.foldl_append]
      rfl

/-- What a lowered program declares comes from the dialect, and is what its functions call. -/
theorem Compiled.externals {dialect : Dialect} {types : TypeNames} {program : Block} {module : Ir.Module}
    (compiled : Compiled dialect types program module) :
    Context.Sources ⟨dialect, types, compiled.signatures⟩ module ∧
      module.externals.map Ir.External.name =
        ((compiled.definitions.flatMap Definition.calls).filter dialect.has).foldl addName [] := by
  have noSources : Context.Sources ⟨dialect, types, compiled.signatures⟩ (.empty compiled.name) := by
    simp [Context.Sources, Ir.Module.empty]
  have externals := externals_of_lowerEach noSources compiled.isLast
  rwa [← compiled.isModule] at externals

/-! ## The calls of builtins -/

/-- A builtin hands the flags of its descriptor on. -/
theorem describe_effects (builtin : Builtin) : builtin.effects.Describe builtin :=
  ⟨rfl, rfl, rfl, rfl, rfl⟩

/-- A declared builtin has the result that its call is given. -/
theorem resolveAll_results (valued : context.types.Valued) {builtin : Builtin}
    {external : Ir.External} (isExternal : context.external builtin = .ok external)
    {result : Option Ir.ValueType} (carried : result = (external.results.head?.getD .void).carried?) :
    context.types.resolveAll builtin.results = .ok result.toList := by
  obtain ⟨-, -, -, results⟩ := external_inv isExternal
  have few := length_results_le_of_external isExternal
  rw [← length_resolveAll results] at few
  rw [carried, carried?_head? (TypeNames.resolveAll_ne_void valued results), results]
  match external.results, few with
  | [], _ => rfl
  | [type], _ => rfl
  | _ :: _ :: _, impossible => simp at impossible

/-- Where types have values, a call is written as its builtin is described. -/
theorem Context.Writes.serves (valued : context.types.Valued) {code : List Ir.Instruction}
    {call : Call} {written : Ir.Call} (writes : context.Writes code call written) :
    written.Serves context.dialect context.types code call := by
  unfold Ir.Call.Serves
  cases writes with
  | function signature dest arguments resolved =>
      rw [(lookups_of_resolveCall resolved).1]
      exact ⟨signature.id, rfl⟩
  | builtin builtin external dest arguments resolved isExternal result literals =>
      have found := lookup_of_resolveCall resolved
      have named := (Dialect.mem_of_lookup found).2
      obtain ⟨sameName, sameEffects, -⟩ := external_inv isExternal
      rw [found]
      refine ⟨⟨external.effects, ?_, ?_⟩, resolveAll_results valued isExternal result, literals⟩
      · rw [sameName, named]
      · rw [sameEffects]
        exact describe_effects builtin

end Lowering

/-- The builtins that a lowered module declares and calls are those of its program: they are declared once, in
the order of their first calls, and declarations and calls agree with the dialect. -/
theorem Block.imports_of_toModule {dialect : Dialect} {types : Lowering.TypeNames}
    {default name : String} {program : Block} {definitions : List Definition} {module : Ir.Module}
    (made : Lowering.TypeNames.ofDefaultName default = .ok types)
    (areDefinitions : program.definitions = .ok definitions)
    (lowered : program.toModule dialect types name = .ok module) :
    module.Imports dialect types definitions := by
  have valued := Lowering.TypeNames.valued_of_ofDefaultName made
  obtain ⟨compiled⟩ := Lowering.toModule_inv lowered
  obtain rfl : compiled.definitions = definitions :=
    Except.ok.inj (compiled.areDefinitions.symm.trans areDefinitions)
  obtain ⟨sources, names⟩ := compiled.externals
  constructor
  case distinct =>
    rw [names]
    exact nodup_foldl_addName _ List.nodup_nil
  case names =>
    rw [names, foldl_addName]
    simp
  case described =>
    intro external member
    obtain ⟨builtin, found, isExternal⟩ := sources external member
    obtain ⟨-, effects, parameters, results⟩ := Lowering.external_inv isExternal
    exact ⟨builtin, found, parameters, results, effects ▸ Lowering.describe_effects builtin⟩
  case calls =>
    refine compiled.traced.imp ?_
    intro definition function traced
    obtain ⟨calls, perm, writes⟩ := traced.written
    exact ⟨calls, perm, writes.imp fun _ _ writes => writes.serves valued⟩

/-- Builtins with and without results. One takes literals only. -/
def logging : Dialect :=
  ⟨.strict, [.ofMovability "add" ["", ""] [""] true false, .ofMovability "log" [""] [] false false,
    .ofMovability "offset" ["", "u8"] ["u64"] true true]⟩

/-- Calls of builtins inside of each other and in all parts of a loop, some of them more than once. -/
def busyLoop : Block :=
  [.definition "f" [⟨"n", ""⟩] []
      [.loop [.expression (.call "log" [.call "add" [.identifier "n", .identifier "n"]])]
        (.call "offset" [.number "7" "u8", .literal (.boolean true)])
        [.expression (.call "log" [.identifier "n"])]
        [.expression (.call "f" [.call "add" [.number "1" "", .identifier "n"]])]],
    .definition "g" [] [] [.expression (.call "log" [.number "2" ""])]]

theorem Block.imports_of_toModule_busyLoop :
    ∃ module, Lowering.TypeNames.ofDefaultName "u256" = .ok .standard ∧
      busyLoop.definitions = .ok busyLoop.functions ∧
      busyLoop.toModule logging .standard "m" = .ok module ∧
      module.Imports logging .standard busyLoop.functions := by
  have isOk : (busyLoop.toModule logging .standard "m").isOk = true := by decide +kernel
  have made : Lowering.TypeNames.ofDefaultName "u256" = .ok .standard := rfl
  have areDefinitions : busyLoop.definitions = .ok busyLoop.functions := rfl
  obtain ⟨module, lowered⟩ := Lowering.exists_of_isOk isOk
  exact ⟨module, made, areDefinitions, lowered,
    Block.imports_of_toModule made areDefinitions lowered⟩

end YulLowering
