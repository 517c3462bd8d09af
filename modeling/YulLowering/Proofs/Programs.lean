import YulLowering.Proofs.Attempts
import YulLowering.Proofs.Bodies

/-!
# Programs as sequences of functions

Definitions are lowered one after the other. What is handed from one to the next are the module and
the pool of spill slots; both only grow, and the pool always holds all shared slots of the module in
order. Every function of a lowered program comes from one definition, at the same position, and from
a run of moves that wrote its body.
-/

namespace YulLowering

/-- What is found under a name is a builtin of the dialect, and of that name. -/
theorem Dialect.mem_of_lookup {dialect : Dialect} {name : String} {builtin : Builtin}
    (found : dialect.lookup name = some builtin) :
    builtin ∈ dialect.builtins ∧ builtin.name = name :=
  ⟨List.mem_of_find?_eq_some found, by simpa using List.find?_some found⟩

namespace Lowering

variable {context : Context} {outer : List Ir.BlockId}

/-! ## The builtins of a module -/

/-- A declared builtin stays declared. -/
theorem external?_of_prefix {module later : Ir.Module} (grow : module.externals <+: later.externals)
    {name : String} {external : Ir.External} (found : module.external? name = some external) :
    later.external? name = some external := by
  obtain ⟨rest, equal⟩ := grow
  unfold Ir.Module.external? at found ⊢
  rw [← equal, List.find?_append, found]
  rfl

theorem lookup_of_resolveCall {context : Context} {name : String} {builtin : Builtin}
    (resolved : context.resolveCall name = .ok (.builtin builtin)) :
    context.dialect.lookup name = some builtin := by
  unfold Context.resolveCall at resolved
  cases found : context.dialect.lookup name with
  | some other =>
      rw [found] at resolved
      cases resolved
      rfl
  | none =>
      rw [found] at resolved
      cases signature : context.signatures.lookup name <;> rw [signature] at resolved <;>
        cases resolved

/-- What the declaration of a builtin in a module says. -/
theorem external_inv {context : Context} {builtin : Builtin} {external : Ir.External}
    (isExternal : context.external builtin = .ok external) :
    external.name = builtin.name ∧ external.effects = builtin.effects ∧
      context.types.resolveAll builtin.parameters = .ok external.parameters ∧
      context.types.resolveAll builtin.results = .ok external.results := by
  unfold Context.external at isExternal
  split at isExternal
  · cases isExternal
  · obtain ⟨parameterTypes, parameters, isExternal⟩ := bind_ok_inv isExternal
    obtain ⟨resultTypes, results, isExternal⟩ := bind_ok_inv isExternal
    cases isExternal
    exact ⟨rfl, rfl, parameters, results⟩

/-- The builtins that a module declares are those of the dialect. -/
def Context.Sources (context : Context) (module : Ir.Module) : Prop :=
  ∀ external ∈ module.externals, ∃ builtin,
    context.dialect.lookup external.name = some builtin ∧ context.external builtin = .ok external

theorem State.externals_imported (state : State) (external : Ir.External) :
    state.module.externals <+: (state.imported external).module.externals := by
  unfold State.imported Ir.Module.declare
  dsimp only
  split
  · exact List.prefix_refl _
  · exact List.prefix_append _ _

/-- A builtin that is called is declared, either now or by an earlier call of the same name. -/
theorem Context.Sources.imported {state : State} (sources : context.Sources state.module)
    {name : String} {builtin : Builtin} {external : Ir.External}
    (resolved : context.resolveCall name = .ok (.builtin builtin))
    (isExternal : context.external builtin = .ok external) :
    context.Sources (state.imported external).module ∧
      (state.imported external).module.external? external.name = some external := by
  have found := lookup_of_resolveCall resolved
  have named := (Dialect.mem_of_lookup found).2
  obtain ⟨sameName, -⟩ := external_inv isExternal
  have lookup : context.dialect.lookup external.name = some builtin := by
    rw [sameName, named, found]
  cases present : state.module.external? external.name with
  | some other =>
      have same : state.imported external = state := by
        rw [State.imported, Ir.Module.declare, present]
      have isOther : other.name = external.name := by simpa using List.find?_some present
      obtain ⟨source, isSource, sourced⟩ := sources other (List.mem_of_find?_eq_some present)
      rw [isOther, lookup] at isSource
      cases isSource
      rw [isExternal] at sourced
      cases sourced
      rw [same]
      exact ⟨sources, present⟩
  | none =>
      have externals : (state.imported external).module.externals =
          state.module.externals ++ [external] := by
        rw [State.imported, Ir.Module.declare, present]
      constructor
      · intro other member
        rw [externals] at member
        rcases List.mem_append.mp member with old | new
        · exact sources other old
        · obtain rfl := List.mem_singleton.mp new
          exact ⟨builtin, lookup, isExternal⟩
      · unfold Ir.Module.external? at present ⊢
        rw [externals, List.find?_append, present]
        simp

/-! ## The pool of spill slots -/

/-- What the functions of a program share, at some moment of the lowering of one of them. -/
def State.progress (state : State) : Progress :=
  ⟨state.spills, state.module⟩

/-- The first spill slots. -/
def spillSlots (count : Nat) : List Ir.GlobalId :=
  (List.range count).map fun index => ⟨index⟩

@[simp] theorem length_spillSlots (count : Nat) : (spillSlots count).length = count := by
  simp [spillSlots]

/-- More spill slots than there are variables to pair them with make no difference. -/
theorem zip_spillSlots_of_le {bindings : List Binding} {count : Nat}
    (enough : bindings.length ≤ count) :
    bindings.zip (spillSlots count) = bindings.zip (spillSlots bindings.length) := by
  rw [List.zip_eq_zip_take_min, length_spillSlots, Nat.min_eq_left enough, List.take_length,
    spillSlots, ← List.map_take, List.take_range, Nat.min_eq_left enough]
  rfl

theorem index_lt_of_mem_zip {bindings : List Binding} {count : Nat}
    {pair : Binding × Ir.GlobalId} (member : pair ∈ bindings.zip (spillSlots count)) :
    pair.2.index < count := by
  obtain ⟨index, bound, isSlot⟩ := List.mem_map.mp (List.of_mem_zip member).2
  rw [← isSlot]
  exact List.mem_range.mp bound

theorem nodup_spillSlots (count : Nat) : (spillSlots count).Nodup :=
  List.nodup_range.map fun _ _ same => Ir.GlobalId.mk.inj same

/-- The pool holds the shared slots of the module, in order. -/
def Progress.Pooled (progress : Progress) : Prop :=
  progress.spills.slots = spillSlots progress.module.globals.length

/-- Where the pool has enough slots, variables are paired with the first of them. -/
theorem Progress.Pooled.zip_slots {progress : Progress} (pooled : progress.Pooled)
    {bindings : List Binding} (enough : bindings.length ≤ progress.spills.slots.length) :
    bindings.zip progress.spills.slots = bindings.zip (spillSlots bindings.length) := by
  unfold Progress.Pooled at pooled
  rw [pooled] at enough ⊢
  exact zip_spillSlots_of_le (by simpa using enough)

/-- What one moment has in common with a later one. -/
structure Progress.Extends (before later : Progress) : Prop where
  slots : before.spills.slots <+: later.spills.slots
  functions : before.module.functions <+: later.module.functions
  externals : before.module.externals <+: later.module.externals

theorem Progress.Extends.refl (progress : Progress) : progress.Extends progress :=
  ⟨List.prefix_refl _, List.prefix_refl _, List.prefix_refl _⟩

theorem Progress.Extends.trans {before middle later : Progress} (first : before.Extends middle)
    (second : middle.Extends later) : before.Extends later :=
  ⟨first.slots.trans second.slots, first.functions.trans second.functions,
    first.externals.trans second.externals⟩

/-- The next shared slots of a module. -/
def nextGlobals (module : Ir.Module) (count : Nat) : List Ir.GlobalId :=
  (List.range' module.globals.length count).map fun index => ⟨index⟩

/-- New slots go to the pool and to the module alike. -/
theorem extendBy_eq (pool : SpillSlots) (module : Ir.Module) (count : Nat) :
    pool.extendBy module count =
      (⟨pool.slots ++ nextGlobals module count⟩,
        { module with
          globals := module.globals ++ (nextGlobals module count).map Ir.GlobalSlot.mk }) := by
  induction count generalizing pool module with
  | zero => simp [SpillSlots.extendBy, nextGlobals]
  | succ count ih =>
      show (pool.extend module).1.extendBy (pool.extend module).2 count = _
      rw [ih]
      simp [SpillSlots.extend, Ir.Module.pushGlobal, nextGlobals, List.range'_succ]

theorem State.pooled_reserved {state : State} (pooled : state.progress.Pooled) (count : Nat) :
    (state.reserved count).progress.Pooled := by
  unfold Progress.Pooled State.progress at pooled ⊢
  dsimp only at pooled ⊢
  rw [State.reserved, SpillSlots.reserve, extendBy_eq]
  simp [pooled, spillSlots, nextGlobals, List.range_eq_range', ← List.range'_append_1]

theorem State.extends_reserved (state : State) (count : Nat) :
    state.progress.Extends (state.reserved count).progress := by
  rw [State.reserved, SpillSlots.reserve, extendBy_eq]
  exact ⟨List.prefix_append _ _, List.prefix_refl _, List.prefix_refl _⟩

theorem State.externals_reserved (state : State) (count : Nat) :
    (state.reserved count).module.externals = state.module.externals := by
  rw [State.reserved, SpillSlots.reserve, extendBy_eq]

theorem State.functions_reserved (state : State) (count : Nat) :
    (state.reserved count).module.functions = state.module.functions := by
  rw [State.reserved, SpillSlots.reserve, extendBy_eq]

theorem State.name_reserved (state : State) (count : Nat) :
    (state.reserved count).module.name = state.module.name := by
  rw [State.reserved, SpillSlots.reserve, extendBy_eq]

theorem State.name_imported (state : State) (external : Ir.External) :
    (state.imported external).module.name = state.module.name := by
  unfold State.imported Ir.Module.declare
  dsimp only
  split <;> rfl

theorem State.progress_imported (state : State) (external : Ir.External) :
    (state.imported external).module.functions = state.module.functions ∧
      (state.imported external).module.globals = state.module.globals := by
  unfold State.imported Ir.Module.declare
  dsimp only
  split <;> exact ⟨rfl, rfl⟩

/-- Moves let the pool and the module grow and add no function. -/
theorem Move.progress {stage later : Stage} (move : Move context outer stage later) :
    stage.state.progress.Extends later.state.progress ∧
      later.state.progress.module.functions = stage.state.progress.module.functions ∧
      (stage.state.progress.Pooled → later.state.progress.Pooled) := by
  cases move with
  | announce name target =>
      exact ⟨State.extends_reserved _ _, State.functions_reserved _ _,
        fun pooled => State.pooled_reserved pooled _⟩
  | declareBuiltin name builtin external =>
      obtain ⟨functions, globals⟩ := State.progress_imported stage.state external
      refine ⟨⟨List.prefix_refl _, ?_, stage.state.externals_imported external⟩, functions, ?_⟩
      · show stage.state.module.functions <+: (stage.state.imported external).module.functions
        exact functions ▸ List.prefix_refl _
      · intro pooled
        unfold Progress.Pooled State.progress at pooled ⊢
        dsimp only at pooled ⊢
        rw [globals]
        exact pooled
  | write | receive | declare | discard | newBlock | close | moveTo | enterBlock | leaveBlock
  | enterLoop | leaveLoop => exact ⟨.refl _, rfl, id⟩

theorem Moves.progress {stage later : Stage} (moves : Moves context outer stage later) :
    stage.state.progress.Extends later.state.progress ∧
      later.state.progress.module.functions = stage.state.progress.module.functions ∧
      (stage.state.progress.Pooled → later.state.progress.Pooled) := by
  induction moves with
  | refl => exact ⟨.refl _, rfl, id⟩
  | tail _ move ih =>
      obtain ⟨moreExtends, moreFunctions, morePooled⟩ := move.progress
      obtain ⟨extends', functions, pooled⟩ := ih
      exact ⟨extends'.trans moreExtends, moreFunctions.trans functions, morePooled ∘ pooled⟩

theorem Move.sources {stage later : Stage} (move : Move context outer stage later)
    (sources : context.Sources stage.state.module) : context.Sources later.state.module := by
  cases move with
  | announce name target =>
      unfold Context.Sources
      rw [State.externals_reserved]
      exact sources
  | declareBuiltin name builtin external resolved isExternal =>
      exact (sources.imported resolved isExternal).1
  | write | receive | declare | discard | newBlock | close | moveTo | enterBlock | leaveBlock
  | enterLoop | leaveLoop => exact sources

theorem Moves.sources {stage later : Stage} (moves : Moves context outer stage later)
    (sources : context.Sources stage.state.module) : context.Sources later.state.module := by
  induction moves with
  | refl => exact sources
  | tail _ move ih => exact move.sources ih

/-! ## Where the functions of a module come from -/

/-- Parameters are copied without regard to what the functions share. -/
theorem State.progress_bound (state : State) (names : List TypedName) (values : List Ir.Value) :
    (state.bound names values).progress = state.progress := by
  obtain ⟨-, same⟩ := State.bound_keeps
    (motive := fun _ other => other.progress = state.progress)
    (fun _ equal => equal) names values rfl
  exact same

/-- How a function of a module has been written. -/
structure Origin (context : Context) (last : Progress) (definition : Definition)
    (function : Ir.Function) where
  before : Progress
  signature : Signature
  returns : List Binding
  prepared : Stage
  finish : Stage
  isSignature : context.signatures.lookup definition.name = some signature
  pooled : before.Pooled
  sources : context.Sources before.module
  run : BodyRun context definition signature
    ((before.begin definition.name signature).bound definition.parameters
      (before.begin definition.name signature).draft.function.parameters) returns prepared finish
  isOpen : finish.draft.IsOpen
  flows : finish.draft.Flows []
  function_eq : function = (finish.state.returned returns).draft.function
  extends_last : (finish.state.returned returns).progress.Extends last

namespace Origin

variable {last : Progress} {definition : Definition} {function : Ir.Function}

/-- The state in which the parameters of the function have been copied. -/
def start (origin : Origin context last definition function) : State :=
  (origin.before.begin definition.name origin.signature).bound definition.parameters
    (origin.before.begin definition.name origin.signature).draft.function.parameters

theorem begins (origin : Origin context last definition function) : origin.start.Begins :=
  (origin.before.begins definition.name origin.signature).bound _ _

theorem moves (origin : Origin context last definition function) :
    Moves context [] (.resting origin.start) origin.finish :=
  origin.run.moves

theorem settled (origin : Origin context last definition function) :
    origin.finish.draft.Settled [] := by
  have settled := origin.moves.settled origin.begins.settled
  rwa [Stage.Settled, origin.run.rested.waiting] at settled

/-- The finished function has grown out of the one that has been created for the definition. -/
theorem grows (origin : Origin context last definition function) :
    (origin.before.begin definition.name origin.signature).draft.function.Grows function := by
  have prepared := (origin.before.begins definition.name origin.signature).grows
    definition.parameters (origin.before.begin definition.name origin.signature).draft.function.parameters
  have returned := (prepared.trans origin.moves.grows).trans
    (grows_returned origin.isOpen origin.returns)
  rwa [← origin.function_eq] at returned

theorem resultCount_eq (origin : Origin context last definition function) :
    function.resultCount = origin.signature.results.length :=
  origin.grows.resultCount

/-- What comes after the function changes nothing about it. -/
def weaken (origin : Origin context last definition function) {later : Progress}
    (more : last.Extends later) : Origin context later definition function :=
  { origin with extends_last := origin.extends_last.trans more }

end Origin

/-- A definition that is lowered has written its body into a fresh draft, and adds the function of the
draft. -/
theorem writeBody_of_lower {definition : Definition} {before later : Progress}
    (lowered : definition.lower context before = .ok later) :
    ∃ signature state, context.signatures.lookup definition.name = some signature ∧
      (definition.writeBody context signature).after (before.begin definition.name signature) =
        (.ok (), state) ∧
      later = ⟨state.spills, (state.module.pushFunction state.draft.function).2⟩ := by
  unfold Definition.lower at lowered
  split at lowered
  · next signature isSignature =>
    cases written : (definition.writeBody context signature).after
        (before.begin definition.name signature) with
    | mk outcome state =>
        rw [written] at lowered
        obtain ⟨⟨⟩, rfl, adds⟩ := bind_ok_inv lowered
        exact ⟨signature, state, isSignature, written, (Except.ok.inj adds).symm⟩
  · cases lowered

theorem lowerEach_cons_inv {definition : Definition} {rest : List Definition} {before last : Progress}
    (lowered : Definition.lowerEach context before (definition :: rest) = .ok last) :
    ∃ middle, definition.lower context before = .ok middle ∧
      Definition.lowerEach context middle rest = .ok last := by
  rw [Definition.lowerEach] at lowered
  obtain ⟨middle, first, others⟩ := bind_ok_inv lowered
  exact ⟨middle, mapError_ok_inv first, others⟩

/-- A definition adds its function to the module. -/
theorem lower_inv {definition : Definition} {before later : Progress} (pooled : before.Pooled)
    (sources : context.Sources before.module)
    (lowered : definition.lower context before = .ok later) :
    ∃ function, (∃ origin : Origin context later definition function, origin.before = before ∧
        later.spills = (origin.finish.state.returned origin.returns).spills) ∧
      later.Pooled ∧ context.Sources later.module ∧ before.Extends later ∧
      later.module.functions = before.module.functions ++ [function] := by
  obtain ⟨signature, state, isSignature, written, rfl⟩ := writeBody_of_lower lowered
  obtain ⟨returns, prepared, finish, run, isOpen, flows, rfl⟩ :=
    writeBody_inv (before.begins definition.name signature) written
  have bodyProgress := run.moves.progress
  rw [Stage.resting, State.progress_bound] at bodyProgress
  obtain ⟨bodyExtends, bodyFunctions, bodyPooled⟩ := bodyProgress
  have returnExtends := finish.state.extends_reserved (returns.length - 1)
  have returnPooled := State.pooled_reserved (bodyPooled pooled) (returns.length - 1)
  have extendsLast : (finish.state.returned returns).progress.Extends
      ⟨(finish.state.returned returns).spills,
        ((finish.state.returned returns).module.pushFunction
          (finish.state.returned returns).draft.function).2⟩ :=
    ⟨List.prefix_refl _, List.prefix_append _ _, List.prefix_refl _⟩
  refine ⟨_, ⟨⟨before, signature, returns, prepared, finish, isSignature, pooled, sources, run, isOpen,
    flows, rfl, extendsLast⟩, rfl, rfl⟩, returnPooled, ?_, ?_, ?_⟩
  · have bodySources : context.Sources finish.state.module := by
      apply run.moves.sources
      have same := State.progress_bound (before.begin definition.name signature) definition.parameters
        (before.begin definition.name signature).draft.function.parameters
      rw [Stage.resting, show (State.module _) = _ from congrArg Progress.module same]
      exact sources
    show context.Sources (finish.state.reserved (returns.length - 1)).module
    unfold Context.Sources
    rw [State.externals_reserved]
    exact bodySources
  · exact (bodyExtends.trans returnExtends).trans extendsLast
  · show (finish.state.reserved (returns.length - 1)).module.functions ++ _ = _
    rw [State.functions_reserved]
    exact congrArg (· ++ _) bodyFunctions

/-- Definitions add their functions in order. -/
theorem lowerEach_inv {definitions : List Definition} {before later : Progress}
    (pooled : before.Pooled) (sources : context.Sources before.module)
    (lowered : Definition.lowerEach context before definitions = .ok later) :
    ∃ functions, List.Forall₂ (fun definition function =>
        Nonempty (Origin context later definition function)) definitions functions ∧
      later.Pooled ∧ before.Extends later ∧
      later.module.functions = before.module.functions ++ functions := by
  induction definitions generalizing before with
  | nil =>
      cases lowered
      exact ⟨[], .nil, pooled, .refl _, (List.append_nil _).symm⟩
  | cons definition rest ih =>
      obtain ⟨middle, first, others⟩ := lowerEach_cons_inv lowered
      obtain ⟨function, ⟨origin, -, -⟩, middlePooled, middleSources, firstExtends, firstFunctions⟩ :=
        lower_inv pooled sources first
      obtain ⟨functions, origins, lastPooled, restExtends, restFunctions⟩ :=
        ih middlePooled middleSources others
      refine ⟨function :: functions, .cons ⟨origin.weaken restExtends⟩ origins, lastPooled,
        firstExtends.trans restExtends, ?_⟩
      rw [restFunctions, firstFunctions, List.append_assoc, List.singleton_append]

/-- What a lowered program consists of. -/
structure Compiled (dialect : Dialect) (types : TypeNames) (program : Block) (module : Ir.Module)
    where
  name : String
  definitions : List Definition
  signatures : Signatures
  last : Progress
  areDefinitions : program.definitions = .ok definitions
  areSignatures : Definition.signatures types .empty definitions = .ok signatures
  isLast : Definition.lowerEach ⟨dialect, types, signatures⟩ ⟨.empty, .empty name⟩ definitions =
    .ok last
  origins : List.Forall₂ (fun definition function =>
    Nonempty (Origin ⟨dialect, types, signatures⟩ last definition function)) definitions
      module.functions
  pooled : last.Pooled
  isModule : module = last.module

theorem toModule_inv {dialect : Dialect} {types : TypeNames} {name : String} {program : Block}
    {module : Ir.Module} (lowered : program.toModule dialect types name = .ok module) :
    ∃ compiled : Compiled dialect types program module, compiled.name = name := by
  obtain ⟨definitions, areDefinitions, lowered⟩ := bind_ok_inv lowered
  obtain ⟨signatures, areSignatures, lowered⟩ := bind_ok_inv lowered
  obtain ⟨last, all, lowered⟩ := bind_ok_inv lowered
  obtain rfl := Except.ok.inj lowered
  have empty : (⟨.empty, .empty name⟩ : Progress).Pooled := rfl
  obtain ⟨functions, origins, pooled, -, areFunctions⟩ :=
    lowerEach_inv empty (by simp [Context.Sources, Ir.Module.empty]) all
  have areOrigins : List.Forall₂ (fun definition function =>
      Nonempty (Origin ⟨dialect, types, signatures⟩ last definition function)) definitions
        last.module.functions := by
    rw [areFunctions]
    exact origins
  exact ⟨⟨name, definitions, signatures, last, mapError_ok_inv areDefinitions, areSignatures, all,
    areOrigins, pooled, rfl⟩, rfl⟩

/-- Every function of a module has been written for a definition. -/
theorem Compiled.origin_of_mem {dialect : Dialect} {types : TypeNames} {program : Block}
    {module : Ir.Module} (compiled : Compiled dialect types program module)
    {function : Ir.Function} (member : function ∈ module.functions) :
    ∃ definition, Nonempty (Origin ⟨dialect, types, compiled.signatures⟩ compiled.last definition
      function) := by
  obtain ⟨index, bound, rfl⟩ := List.mem_iff_getElem.mp member
  have lengths := compiled.origins.length_eq
  exact ⟨compiled.definitions[index], compiled.origins.get (by omega) bound⟩

end Lowering

end YulLowering
