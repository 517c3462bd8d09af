import Mathlib.Data.List.MinMax
import Mathlib.Order.Nat
import YulLowering.Proofs.Signatures

/-!
# Spill slots

The second and later results of a function travel through slots that all functions share. A caller takes
them out right after the call, and a function fills them at its very end, from its return variables. The
slots are reserved while functions are lowered, and in the end a module has exactly as many of them as one of
its functions needs.
-/

namespace YulLowering

/-- The shared slots that an instruction reads or writes. -/
def Ir.Instruction.globals : Ir.Instruction → List Ir.GlobalId
  | load _ (.ofGlobal slot) | store (.ofGlobal slot) _ => [slot]
  | const _ _ | reserve _ _ | load _ (.ofLocal _) | store (.ofLocal _) _ | call _ _ _
  | testNonZero _ _ => []

/-- How many results the functions of a module have. -/
def Ir.Module.Returns (module : Ir.Module) (id : Ir.FunctionId) (count : Nat) : Prop :=
  ∃ function, module.function? id = some function ∧ function.resultCount = count

namespace Lowering

/-! ## Parts of code -/

/-- A part of the code of a block. -/
inductive Segment where
  | plain (instruction : Ir.Instruction)
  /-- A call whose results go to several variables, by way of the first spill slots. -/
  | receive (result : Ir.Value) (callee : Ir.FunctionId) (arguments : List Ir.Value)
      (first : Binding) (others : List Binding)

/-- The instructions of a part. -/
def Segment.code : Segment → List Ir.Instruction
  | plain instruction => [instruction]
  | receive result callee arguments first others =>
    receiveCode result (.function callee) arguments first (others.zip (spillSlots others.length))

variable {context : Context} {outer : List Ir.BlockId}

/-- How many results the functions have that a program can call. -/
def Context.Returns (context : Context) (id : Ir.FunctionId) (count : Nat) : Prop :=
  ∃ signature ∈ context.signatures.all, signature.id = id ∧ signature.results.length = count

/-! ## The end of a function -/

/-- More spill slots than there are values to hand over make no difference. -/
theorem returnCode_spillSlots (supply : Nat) (returns : List Binding) {count : Nat}
    (enough : returns.length - 1 ≤ count) :
    returnCode supply (spillSlots count) returns =
      returnCode supply (spillSlots (returns.length - 1)) returns := by
  cases returns with
  | nil => rfl
  | cons first others =>
      have enough : others.length ≤ count := enough
      rw [returnCode, zip_spillSlots_of_le enough]
      rfl

theorem Origin.pooled_start {last : Progress} {definition : Definition} {function : Ir.Function}
    (origin : Origin context last definition function) : origin.start.progress.Pooled := by
  rw [Origin.start, State.progress_bound]
  exact origin.pooled

theorem Origin.pooled_finish {last : Progress} {definition : Definition} {function : Ir.Function}
    (origin : Origin context last definition function) : origin.finish.state.progress.Pooled :=
  origin.moves.progress.2.2 origin.pooled_start

/-- At the end of a function the return values are handed over in the block under the cursor, and nothing
else is written. -/
theorem Origin.shape {last : Progress} {definition : Definition} {function : Ir.Function}
    (origin : Origin context last definition function) :
    ∃ exit block, origin.finish.draft.function.block? exit = some block ∧
      function.block? exit = some ((block.appendAll
        (returnCode origin.finish.draft.function.valueSupply
          (spillSlots (origin.returns.length - 1)) origin.returns)).close
            (.ret (directResult origin.finish.draft.function.valueSupply origin.returns))) ∧
      ∀ id, id ≠ exit → function.block? id = origin.finish.draft.function.block? id := by
  obtain ⟨block, found, -⟩ := origin.isOpen
  let state := origin.finish.state
  let reserved := state.reserved (origin.returns.length - 1)
  have slots : reserved.spills.slots = spillSlots reserved.module.globals.length :=
    State.pooled_reserved origin.pooled_finish _
  have enough : origin.returns.length - 1 ≤ reserved.module.globals.length := by
    have reservedEnough := state.le_length_slots_reserved (origin.returns.length - 1)
    rwa [slots, length_spillSlots] at reservedEnough
  let code := returnCode state.draft.function.valueSupply reserved.spills.slots origin.returns
  have code_eq : code = returnCode state.draft.function.valueSupply
      (spillSlots (origin.returns.length - 1)) origin.returns := by
    rw [← returnCode_spillSlots _ _ enough, ← slots]
  let exit := Ir.Terminator.ret (directResult state.draft.function.valueSupply origin.returns)
  have blocks (id : Ir.BlockId) : function.block? id =
      if state.draft.cursor = id then
        (state.draft.function.block? id).map fun block => (block.appendAll code).close exit
      else state.draft.function.block? id := by
    rw [origin.function_eq]
    show ((writeAll state.draft code).close exit).function.block? id = _
    rw [Ir.Draft.block?_close, cursor_writeAll, block?_writeAll]
    split
    · exact Option.map_map ..
    · rfl
  refine ⟨state.draft.cursor, block, found, ?_, ?_⟩
  · rw [blocks, if_pos rfl, ← code_eq]
    exact congrArg _ found
  · intro id differs
    rw [blocks, if_neg (Ne.symm differs)]

/-- The variables that hold the return values: they follow the parameters. -/
structure ReturnVariables (definition : Definition) (function : Ir.Function)
    (returns : List Binding) : Prop where
  names : returns.map Binding.name = definition.returns.map TypedName.name
  slots : returns.map (fun binding => binding.slot.index) =
    List.range' definition.parameters.length definition.returns.length
  locals : ∀ binding ∈ returns,
    function.local? binding.slot = some ⟨binding.slot, binding.name, binding.type⟩

/-- Slots that are declared one after the other keep their numbers. -/
theorem local?_of_mem {function : Ir.Function} {before : List Ir.LocalSlot}
    {bindings : List Binding}
    (slots : bindings.map (fun binding => binding.slot.index) =
      List.range' before.length bindings.length)
    (locals : before ++ bindings.map (fun binding => ⟨binding.slot, binding.name, binding.type⟩) <+:
      function.locals) {binding : Binding} (member : binding ∈ bindings) :
    function.local? binding.slot = some ⟨binding.slot, binding.name, binding.type⟩ := by
  obtain ⟨index, bound, rfl⟩ := List.mem_iff_getElem.mp member
  have slot : bindings[index].slot.index = before.length + index := by
    have same := congrArg (fun numbers => numbers[index]?) slots
    simpa [bound] using same
  obtain ⟨rest, locals⟩ := locals
  rw [Ir.Function.local?, slot, ← locals, List.append_assoc,
    List.getElem?_append_right (Nat.le_add_right ..), Nat.add_sub_cancel_left,
    List.getElem?_append_left (by simpa using bound)]
  simp [bound]

theorem Origin.returnVariables {types : TypeNames} {index : Nat} {last : Progress}
    {definition : Definition} {function : Ir.Function}
    (origin : Origin context last definition function)
    (describes : Describes types index definition origin.signature) :
    ReturnVariables definition function origin.returns := by
  have count : origin.returns.length = definition.returns.length := by
    have lengths := congrArg List.length origin.run.described
    rw [List.length_map, List.length_zip, List.length_map, describes.length_results,
      Nat.min_self] at lengths
    exact lengths
  have parameters : origin.start.draft.function.locals.length = definition.parameters.length := by
    have copied := length_locals_bound definition.parameters
      (origin.before.begin definition.name origin.signature).draft.function.parameters
      (origin.before.begin definition.name origin.signature)
    have values : (origin.before.begin definition.name
        origin.signature).draft.function.parameters.length = origin.signature.parameters.length := by
      simp [Progress.begin, Ir.Draft.start, Ir.Function.create, Ir.Function.pushBlock]
    rw [values, describes.length_parameters, Nat.min_self] at copied
    exact copied.trans (Nat.zero_add _)
  have reserved := origin.run.reserved
  constructor
  case names =>
    have names := congrArg (List.map Prod.fst) origin.run.described
    rw [List.map_map, List.map_fst_zip (by rw [List.length_map, describes.length_results])] at names
    exact names
  case slots =>
    rw [← parameters, ← count]
    exact reserved.slots
  case locals =>
    intro binding member
    have later := origin.run.performs.grows.trans (grows_returned origin.isOpen origin.returns)
    rw [← origin.function_eq] at later
    have locals := later.locals
    rw [reserved.locals] at locals
    exact local?_of_mem reserved.slots locals member

/-! ## The size of the pool -/

/-- How many spill slots the functions of a program need. -/
def Context.spillDemand (context : Context) : Nat :=
  (context.signatures.all.map fun signature => signature.results.length - 1).foldr max 0

theorem le_spillDemand {signature : Signature} (member : signature ∈ context.signatures.all) :
    signature.results.length - 1 ≤ context.spillDemand :=
  List.le_max_of_le' 0 (List.mem_map_of_mem member) (Nat.le_refl _)

/-- There are no more spill slots than functions need, unless a builtin has been announced. -/
def Stage.Modest (context : Context) (stage : Stage) : Prop :=
  stage.state.spills.slots.length ≤ context.spillDemand ∨
    ∃ builtin, Target.builtin builtin ∈ stage.announced

theorem length_slots_reserved (state : State) (count : Nat) :
    (state.reserved count).spills.slots.length = max state.spills.slots.length count :=
  SpillSlots.size_reserve state.spills state.module count

/-- Only calls of functions are ever written with slots for their results, so a builtin that has
been announced remains. -/
theorem Move.modest {stage later : Stage} (move : Move context outer stage later)
    (modest : stage.Modest context) : later.Modest context := by
  cases move with
  | receive _ signature _ _ _ _ _ announced _ _ expected =>
      rcases modest with few | ⟨builtin, member⟩
      · exact .inl few
      · rw [expected] at member
        rcases List.mem_cons.mp member with isFunction | member
        · cases isFunction
        · exact .inr ⟨builtin, member⟩
  | announce name target resolved =>
      cases target with
      | builtin builtin => exact .inr ⟨builtin, List.mem_cons_self⟩
      | function signature =>
          rcases modest with few | ⟨builtin, member⟩
          · left
            show (stage.state.reserved _).spills.slots.length ≤ _
            rw [length_slots_reserved]
            exact max_le few (le_spillDemand (mem_of_resolveCall resolved))
          · exact .inr ⟨builtin, List.mem_cons_of_mem _ member⟩
  | write | declare | declareBuiltin | discard | newBlock | close | moveTo | enterBlock
  | leaveBlock | enterLoop | leaveLoop => exact modest

theorem Origin.modest {last : Progress} {definition : Definition} {function : Ir.Function}
    (origin : Origin context last definition function)
    (few : origin.before.spills.slots.length ≤ context.spillDemand) :
    (origin.finish.state.returned origin.returns).spills.slots.length ≤ context.spillDemand := by
  have start : origin.start.progress = origin.before := State.progress_bound _ _ _
  have modest : origin.finish.Modest context := by
    apply origin.moves.keeps Move.modest
    left
    show origin.start.progress.spills.slots.length ≤ _
    rwa [start]
  have demand := le_spillDemand (mem_of_lookup origin.isSignature).1
  have count : origin.returns.length ≤ origin.signature.results.length := by
    have lengths := congrArg List.length origin.run.described
    rw [List.length_map, List.length_zip] at lengths
    omega
  rcases modest with few | ⟨builtin, member⟩
  · show (origin.finish.state.reserved _).spills.slots.length ≤ _
    rw [length_slots_reserved]
    omega
  · rw [origin.run.rested.announced] at member
    cases member

theorem lowerEach_modest {definitions : List Definition} {before later : Progress}
    (pooled : before.Pooled) (sources : context.Sources before.module)
    (few : before.spills.slots.length ≤ context.spillDemand)
    (lowered : Definition.lowerEach context before definitions = .ok later) :
    later.spills.slots.length ≤ context.spillDemand := by
  induction definitions generalizing before with
  | nil =>
      cases lowered
      exact few
  | cons definition rest ih =>
      obtain ⟨middle, first, others⟩ := lowerEach_cons_inv lowered
      obtain ⟨function, ⟨origin, rfl, spills⟩, middlePooled, middleSources, -, -⟩ :=
        lower_inv pooled sources first
      have fewer := origin.modest few
      rw [← spills] at fewer
      exact ih middlePooled middleSources fewer others

namespace Compiled

variable {dialect : Dialect} {types : TypeNames} {program : Block} {module : Ir.Module}

theorem Entry.returns {compiled : Compiled dialect types program module} {index : Nat}
    (entry : compiled.Entry index) (distinct : (compiled.definitions.map Definition.name).Nodup) :
    entry.function.resultCount = entry.signature.results.length := by
  rw [← entry.origin_signature distinct]
  exact entry.origin.resultCount_eq

theorem resultCounts_eq (compiled : Compiled dialect types program module)
    (distinct : (compiled.definitions.map Definition.name).Nodup) :
    module.functions.map (fun function => function.resultCount - 1) =
      compiled.signatures.all.map fun signature => signature.results.length - 1 := by
  apply List.ext_getElem?
  intro index
  by_cases bound : index < compiled.definitions.length
  · obtain ⟨entry⟩ := compiled.entry bound
    simp [entry.isFunction, entry.isSignature, entry.returns distinct]
  · have beyond : compiled.definitions.length ≤ index := Nat.le_of_not_lt bound
    rw [List.getElem?_eq_none, List.getElem?_eq_none]
    · rwa [List.length_map, compiled.length_signatures]
    · rwa [List.length_map, compiled.length_functions]

/-- A call gives as many results as the function with its number has. -/
theorem returns_of_signature (compiled : Compiled dialect types program module)
    (distinct : (compiled.definitions.map Definition.name).Nodup) {id : Ir.FunctionId} {count : Nat}
    (returns : Context.Returns ⟨dialect, types, compiled.signatures⟩ id count) :
    module.Returns id count := by
  obtain ⟨signature, member, rfl, rfl⟩ := returns
  obtain ⟨index, entry, rfl⟩ := compiled.entry_of_signature member
  refine ⟨entry.function, ?_, entry.returns distinct⟩
  rw [entry.describes.id]
  exact entry.isFunction

theorem Entry.length_returns {compiled : Compiled dialect types program module} {index : Nat}
    (entry : compiled.Entry index) (distinct : (compiled.definitions.map Definition.name).Nodup) :
    entry.origin.returns.length = entry.signature.results.length := by
  have describes := entry.describes
  rw [← entry.origin_signature distinct] at describes
  have names := congrArg List.length (entry.origin.returnVariables describes).names
  rw [List.length_map, List.length_map] at names
  rw [names, entry.describes.length_results]

theorem length_slots (compiled : Compiled dialect types program module) :
    compiled.last.spills.slots.length = module.globals.length := by
  rw [compiled.pooled, length_spillSlots, ← compiled.isModule]

/-- The module has exactly as many shared slots as its functions need. -/
theorem length_globals (compiled : Compiled dialect types program module)
    (distinct : (compiled.definitions.map Definition.name).Nodup) :
    module.globals.length =
      (module.functions.map fun function => function.resultCount - 1).foldr max 0 := by
  have needed : ∀ count ∈ compiled.signatures.all.map fun signature => signature.results.length - 1,
      count ≤ compiled.last.spills.slots.length := by
    intro count member
    obtain ⟨signature, isSignature, rfl⟩ := List.mem_map.mp member
    obtain ⟨index, entry, rfl⟩ := compiled.entry_of_signature isSignature
    have reserved := entry.origin.finish.state.le_length_slots_reserved
      (entry.origin.returns.length - 1)
    rw [entry.length_returns distinct] at reserved
    have kept : (entry.origin.finish.state.returned entry.origin.returns).spills.slots.length ≤
        compiled.last.spills.slots.length := entry.origin.extends_last.slots.length_le
    rw [State.returned, entry.length_returns distinct] at kept
    exact reserved.trans kept
  rw [compiled.resultCounts_eq distinct, ← compiled.length_slots]
  apply Nat.le_antisymm
  · have empty : Progress.Pooled ⟨.empty, .empty compiled.name⟩ := rfl
    exact lowerEach_modest empty (by simp [Context.Sources, Ir.Module.empty]) (Nat.zero_le _)
      compiled.isLast
  · exact List.max_le_of_forall_le _ _ needed

theorem returns_le (compiled : Compiled dialect types program module)
    (distinct : (compiled.definitions.map Definition.name).Nodup) {id : Ir.FunctionId} {count : Nat}
    (returns : module.Returns id count) : count - 1 ≤ module.globals.length := by
  obtain ⟨function, found, rfl⟩ := returns
  rw [compiled.length_globals distinct]
  exact List.le_max_of_le' 0 (List.mem_map_of_mem (List.mem_of_getElem? found)) (Nat.le_refl _)

end Compiled

end Lowering

end YulLowering
