import YulLowering.Proofs.Typing.Statements
import YulLowering.Proofs.Violations.Programs

/-!
# Well-typed programs become well-typed modules

What a function is called with and gives back is known from its signature while the program is lowered. The
finished function has just these types, and it fills the shared slots with values of the types that its
callers read them with.
-/

namespace YulLowering

namespace Ir

/-- What a module declares about something that is called. -/
def Module.interface? (module : Module) : Callee → Option Interface
  | .function id => (module.function? id).map fun function =>
    ⟨function.parameters.map Value.type, function.resultType⟩
  | .builtin name _ => (module.external? name).map fun external =>
    ⟨external.parameters, external.results.head?.getD .void⟩

/-- A function fills a shared slot with values of a type, and never with values of other types. -/
structure Function.Fills (function : Function) (slot : GlobalId) (type : ValueType) : Prop where
  stores : ∃ value, .store (.ofGlobal slot) value ∈ function.instructions
  typed : ∀ value, .store (.ofGlobal slot) value ∈ function.instructions → value.type = type

/-- Code that reads shared slots after calls only, and with the types that the callees fill them with. -/
def ReadsBack (fills : FunctionId → GlobalId → ValueType → Prop) (code : List Instruction) : Prop :=
  ∀ before dest slot after, code = before ++ .load dest (.ofGlobal slot) :: after →
    ∃ earlier result id arguments between,
      before = earlier ++ .call result (.function id) arguments :: between ∧
        (∀ instruction ∈ between, ∀ dest callee values, instruction ≠ .call dest callee values) ∧
        fills id slot dest.type

/-- A function all of whose code agrees with the types that its module declares. -/
structure Function.WellTyped (module : Module) (function : Function) : Prop where
  instructions : ∀ instruction ∈ function.instructions,
    instruction.WellTyped (fun callee interface => module.interface? callee = some interface)
      function.locals
  readsBack : ∀ block ∈ function.blocks,
    ReadsBack (fun id slot type => ∃ callee, module.function? id = some callee ∧
      callee.Fills slot type) block.instructions
  returns : ∀ block ∈ function.blocks, ∀ value, block.terminator = .ret value →
    value.map Value.type = function.resultType.carried?

namespace ReadsBack

variable {fills : FunctionId → GlobalId → ValueType → Prop} {first second : List Instruction}

theorem append (firstReads : ReadsBack fills first) (secondReads : ReadsBack fills second) :
    ReadsBack fills (first ++ second) := by
  intro before dest slot after same
  rcases List.append_eq_append_iff.mp same with ⟨middle, rfl, rest⟩ | ⟨middle, rfl, rest⟩
  · obtain ⟨earlier, result, id, arguments, between, rfl, quiet, fill⟩ :=
      secondReads middle dest slot after rest
    exact ⟨first ++ earlier, result, id, arguments, between, (List.append_assoc ..).symm, quiet, fill⟩
  · cases middle with
    | nil =>
        obtain ⟨earlier, result, id, arguments, between, none, -⟩ :=
          secondReads [] dest slot after rest.symm
        simp at none
    | cons head middle =>
        obtain ⟨rfl, rfl⟩ := List.cons.inj rest
        exact firstReads before dest slot middle rfl

/-- Code that reads no shared slot. -/
theorem of_quiet (quiet : ∀ dest slot, .load dest (.ofGlobal slot) ∉ first) : ReadsBack fills first := by
  intro before dest slot after same
  refine absurd ?_ (quiet dest slot)
  rw [same]
  simp

theorem mono {more : FunctionId → GlobalId → ValueType → Prop} (reads : ReadsBack fills first)
    (weaken : ∀ id slot type, fills id slot type → more id slot type) : ReadsBack more first := by
  intro before dest slot after same
  obtain ⟨earlier, result, id, arguments, between, split, quiet, fill⟩ :=
    reads before dest slot after same
  exact ⟨earlier, result, id, arguments, between, split, quiet, weaken id slot dest.type fill⟩

end ReadsBack

end Ir

namespace Lowering

/-! ## Copies -/

/-- Every copy is written. -/
theorem store_mem_transferCode {transfers : List Transfer} {transfer : Transfer} (supply : Nat)
    (member : transfer ∈ transfers) :
    ∃ value : Ir.Value, value.type = transfer.type ∧
      .store transfer.target value ∈ transferCode supply transfers := by
  induction transfers generalizing supply with
  | nil => cases member
  | cons head rest ih =>
      rw [transferCode]
      rcases List.mem_cons.mp member with rfl | member
      · exact ⟨_, rfl, List.mem_cons_of_mem _ List.mem_cons_self⟩
      · obtain ⟨value, same, found⟩ := ih (supply + 1) member
        exact ⟨value, same, List.mem_cons_of_mem _ (List.mem_cons_of_mem _ found)⟩

/-- A variable is paired with the shared slot that has its position. -/
theorem getElem?_of_mem_zip_spillSlots {bindings : List Binding} {count : Nat} {binding : Binding}
    {slot : Ir.GlobalId} (member : (binding, slot) ∈ bindings.zip (spillSlots count)) :
    bindings[slot.index]? = some binding := by
  obtain ⟨index, found⟩ := List.mem_iff_getElem?.mp member
  obtain ⟨isBinding, isSlot⟩ := List.getElem?_zip_eq_some.mp found
  obtain ⟨bound, rfl⟩ := List.getElem?_eq_some_iff.mp isSlot
  simpa [spillSlots] using isBinding

/-- Conversely, so is every variable. -/
theorem mem_zip_spillSlots {bindings : List Binding} {binding : Binding} {slot : Ir.GlobalId}
    (found : bindings[slot.index]? = some binding) :
    (binding, slot) ∈ bindings.zip (spillSlots bindings.length) := by
  obtain ⟨bound, -⟩ := List.getElem?_eq_some_iff.mp found
  refine List.mem_of_getElem? (i := slot.index) (List.getElem?_zip_eq_some.mpr ⟨found, ?_⟩)
  simp [spillSlots, bound]

/-! ## Parts of well-typed code -/

/-- What functions hand back in shared slots, by the position of the slot. -/
def Promises.Spills (promises : Promises) (id : Ir.FunctionId) (slot : Ir.GlobalId)
    (type : Ir.ValueType) : Prop :=
  ∃ types, promises.returns id types ∧ types[slot.index + 1]? = some type

variable {promises : Promises} {locals : List Ir.LocalSlot}

/-- Results are taken out of the shared slots that have their positions. -/
theorem mem_taken {supply : Nat} {others : List Binding} {instruction : Ir.Instruction}
    (member : instruction ∈ transferCode supply
      ((others.zip (spillSlots others.length)).map .taken)) :
    ∃ (target : Binding) (slot : Ir.GlobalId) (value : Ir.Value),
      others[slot.index]? = some target ∧ value.type = target.type ∧
        (instruction = .load value (.ofGlobal slot) ∨
          instruction = .store (.ofLocal target.slot) value) := by
  obtain ⟨transfer, isTransfer, value, typed, isCopy⟩ := mem_transferCode member
  obtain ⟨⟨target, slot⟩, paired, rfl⟩ := List.mem_map.mp isTransfer
  exact ⟨target, slot, value, getElem?_of_mem_zip_spillSlots paired, typed, isCopy⟩

namespace Segment.WellTyped

variable {segment : Segment}

theorem instructions (wellTyped : segment.WellTyped promises locals) :
    ∀ instruction ∈ segment.code, instruction.WellTyped promises.declares locals := by
  cases segment with
  | plain instruction => exact List.forall_mem_singleton.mpr wellTyped.2
  | receive result callee arguments first others =>
      obtain ⟨call, typed, targets, -⟩ := wellTyped
      obtain ⟨firstTarget, otherTargets⟩ := List.forall_mem_cons.mp targets
      intro instruction member
      rcases List.mem_cons.mp member with rfl | member
      · exact call
      rcases List.mem_cons.mp member with rfl | member
      · obtain ⟨declared, found, same⟩ := firstTarget
        exact ⟨declared, found, typed.trans same⟩
      · obtain ⟨target, slot, value, isTarget, typed, rfl | rfl⟩ := mem_taken member
        · trivial
        · obtain ⟨declared, found, same⟩ := otherTargets target (List.mem_of_getElem? isTarget)
          exact ⟨declared, found, typed.trans same⟩

/-- Well-typed code writes no shared slot. -/
theorem store_notMem (wellTyped : segment.WellTyped promises locals) (slot : Ir.GlobalId)
    (value : Ir.Value) : .store (.ofGlobal slot) value ∉ segment.code := by
  intro member
  cases segment with
  | plain instruction =>
      obtain rfl := List.mem_singleton.mp member
      cases wellTyped.1
  | receive result callee arguments first others =>
      rcases List.mem_cons.mp member with impossible | member
      · cases impossible
      rcases List.mem_cons.mp member with impossible | member
      · cases impossible
      · obtain ⟨_, _, _, -, -, impossible | impossible⟩ := mem_taken member <;> cases impossible

/-- Shared slots are read with the types of the results that they hold. -/
theorem readsBack (wellTyped : segment.WellTyped promises locals) :
    Ir.ReadsBack promises.Spills segment.code := by
  cases segment with
  | plain instruction =>
      apply Ir.ReadsBack.of_quiet
      intro dest slot member
      obtain rfl := List.mem_singleton.mp member
      cases wellTyped.1
  | receive result callee arguments first others =>
      obtain ⟨-, -, -, returns⟩ := wellTyped
      intro before dest slot after same
      cases before with
      | nil => cases same
      | cons head between =>
          obtain ⟨rfl, rest⟩ := List.cons.inj same
          have inside : ∀ instruction ∈ between ++ .load dest (.ofGlobal slot) :: after,
              instruction = .store (.ofLocal first.slot) result ∨ instruction ∈
                transferCode (result.id.index + 1)
                  ((others.zip (spillSlots others.length)).map .taken) := by
            intro instruction member
            exact List.mem_cons.mp (rest ▸ member)
          refine ⟨[], some result, callee, arguments, between, rfl, ?_, _, returns, ?_⟩
          · intro instruction member other id values isCall
            subst isCall
            rcases inside _ (List.mem_append_left _ member) with impossible | member
            · cases impossible
            · obtain ⟨_, _, _, -, -, impossible | impossible⟩ := mem_taken member <;> cases impossible
          · rcases inside _ (List.mem_append_right _ List.mem_cons_self) with impossible | member
            · cases impossible
            · obtain ⟨target, position, value, isTarget, typed, isLoad | impossible⟩ := mem_taken member
              · cases isLoad
                rw [List.map_cons, List.getElem?_cons_succ, List.getElem?_map, isTarget, typed]
                rfl
              · cases impossible

end Segment.WellTyped

namespace WellTypedCode

variable {code : List Ir.Instruction}

theorem instructions (wellTyped : WellTypedCode promises locals code) :
    ∀ instruction ∈ code, instruction.WellTyped promises.declares locals := by
  obtain ⟨segments, rfl, all⟩ := wellTyped
  intro instruction member
  obtain ⟨segment, isSegment, member⟩ := List.mem_flatMap.mp member
  exact (all segment isSegment).instructions instruction member

theorem store_notMem (wellTyped : WellTypedCode promises locals code) (slot : Ir.GlobalId)
    (value : Ir.Value) : .store (.ofGlobal slot) value ∉ code := by
  obtain ⟨segments, rfl, all⟩ := wellTyped
  intro member
  obtain ⟨segment, isSegment, member⟩ := List.mem_flatMap.mp member
  exact (all segment isSegment).store_notMem slot value member

theorem readsBack (wellTyped : WellTypedCode promises locals code) :
    Ir.ReadsBack promises.Spills code := by
  obtain ⟨segments, rfl, all⟩ := wellTyped
  induction segments with
  | nil => exact .of_quiet (by simp)
  | cons segment rest ih =>
      obtain ⟨first, others⟩ := List.forall_mem_cons.mp all
      rw [List.flatMap_cons]
      exact first.readsBack.append (ih others)

end WellTypedCode

/-! ## The end of a function -/

/-- What is written at the end of a function: variables are read, and shared slots are filled with what has
been read, by position. -/
theorem mem_returnCode {supply : Nat} {returns : List Binding} {instruction : Ir.Instruction}
    (member : instruction ∈ returnCode supply (spillSlots (returns.length - 1)) returns) :
    (∃ dest slot, instruction = .load dest (.ofLocal slot)) ∨
      ∃ (source : Binding) (slot : Ir.GlobalId) (value : Ir.Value),
        returns[slot.index + 1]? = some source ∧ value.type = source.type ∧
          instruction = .store (.ofGlobal slot) value := by
  cases returns with
  | nil => cases member
  | cons first others =>
      rcases List.mem_cons.mp member with rfl | member
      · exact .inl ⟨_, _, rfl⟩
      · obtain ⟨transfer, isTransfer, value, typed, rfl | rfl⟩ := mem_transferCode member
        all_goals obtain ⟨⟨source, slot⟩, paired, rfl⟩ := List.mem_map.mp isTransfer
        · exact .inl ⟨_, _, rfl⟩
        · have found : others[slot.index]? = some source := getElem?_of_mem_zip_spillSlots paired
          exact .inr ⟨source, slot, value, found, typed, rfl⟩

/-- Every return variable but the first is written to a shared slot. -/
theorem store_mem_returnCode (supply : Nat) {returns : List Binding} {slot : Ir.GlobalId}
    {source : Binding} (found : returns[slot.index + 1]? = some source) :
    ∃ value : Ir.Value, value.type = source.type ∧ .store (.ofGlobal slot) value ∈
      returnCode supply (spillSlots (returns.length - 1)) returns := by
  cases returns with
  | nil => cases found
  | cons first others =>
      have paired : (source, slot) ∈ others.zip (spillSlots others.length) := mem_zip_spillSlots found
      obtain ⟨value, typed, member⟩ := store_mem_transferCode (supply + 1)
        (List.mem_map_of_mem (f := Transfer.spilled) paired)
      exact ⟨value, typed, List.mem_cons_of_mem _ member⟩

/-! ## Functions -/

variable {context : Context} {surroundings : Surroundings} {state : State}

theorem Progress.wellTyped_begin {progress : Progress} (pooled : progress.Pooled)
    (sources : context.Sources progress.module) (name : String) (signature : Signature) :
    (progress.begin name signature).WellTyped context where
  code := by
    intro id block found
    obtain ⟨_ | index⟩ := id
    · cases found
      exact .nil
    · cases found
  scope := by
    intro binding member
    cases member
  pooled := pooled
  sources := sources

/-- A new variable gets a value of its type. -/
theorem State.WellTyped.initialised (typed : state.WellTyped context) (name : String)
    (value : Ir.Value) :
    ((state.declared name value.type).stored state.draft.nextLocal value).WellTyped context := by
  have declared := typed.declared name value.type
  obtain ⟨slot, found, same⟩ := declared.declared? (List.mem_append_right _ List.mem_cons_self)
  exact declared.write rfl ⟨slot, found, same⟩

theorem State.WellTyped.bound (typed : state.WellTyped context) (names : List TypedName)
    (values : List Ir.Value) : (state.bound names values).WellTyped context := by
  obtain ⟨-, bound⟩ := State.bound_keeps (motive := fun _ later => later.WellTyped context)
    (fun {state value _} name (typed : state.WellTyped context) => typed.initialised name value)
    names values typed
  exact bound

theorem wellTyped_bindReturns (names : List TypedName) (types : List Ir.ValueType)
    (typed : state.WellTyped context) :
    (bindReturns names types).Yields state fun _ later => later.WellTyped context := by
  induction names generalizing types state with
  | nil => exact .pure typed
  | cons head names ih =>
      obtain ⟨name, typeName⟩ := head
      cases types with
      | nil => exact .pure typed
      | cons type types =>
          apply Step.Yields.declare_bind
          apply Step.Yields.write_bind
          let zero : Ir.Instruction := .const ((state.declared name type).draft.next type) 0
          have isZero : zero.WellTyped (context.promises (state.declared name type).module).declares
              (state.declared name type).draft.function.locals := trivial
          have cleared := (typed.declared name type).write rfl isZero
          have inScope : ⟨name, state.draft.nextLocal, type⟩ ∈
              (state.declared name type).scope.bindings :=
            List.mem_append_right _ List.mem_cons_self
          apply Step.Yields.bind (wellTyped_store cleared inScope rfl)
          intro _ middle typed
          apply Step.Yields.bind (ih types typed)
          intro bindings later typed
          exact .pure typed

namespace Origin

variable {last : Progress} {definition : Definition} {function : Ir.Function} {index : Nat}

theorem locals_eq (origin : Origin context last definition function) :
    function.locals = origin.finish.draft.function.locals :=
  (congrArg Ir.Function.locals origin.function_eq).trans (locals_writeAll _ _)

/-- The return variables have the types of the results. -/
theorem types_returns (origin : Origin context last definition function) {types : TypeNames}
    (describes : Describes types index definition origin.signature) :
    origin.returns.map Binding.type = origin.signature.results := by
  have described := congrArg (List.map Prod.snd) origin.run.described
  rw [List.map_map, List.map_snd_zip (by rw [List.length_map, describes.length_results])] at described
  exact described

/-- All code in front of the end of a well-typed function is well typed. -/
theorem wellTyped_finish (origin : Origin context last definition function)
    (reflects : context.Reflects surroundings) (valued : surroundings.types.Valued)
    (apart : definition.initialisesApart = true) (wellTyped : definition.isWellTyped surroundings = true)
    (describes : Describes surroundings.types index definition origin.signature) :
    origin.finish.state.WellTyped context := by
  have begun : (origin.before.begin definition.name origin.signature).WellTyped context :=
    Progress.wellTyped_begin origin.pooled origin.sources _ _
  have started := begun.bound definition.parameters
    (origin.before.begin definition.name origin.signature).draft.function.parameters
  have adds := (reports_bindReturns _ _).yields.holds _ _ origin.run.binds
  have prepared := (wellTyped_bindReturns _ _ started).holds _ _ origin.run.binds
  have body : WellTypedBody context (definition.typing surroundings.types) definition.body :=
    wellTyped_statements reflects valued definition.body apart wellTyped
  have finished := body.inBlock (reports_statements reflects valued definition.body apart) prepared
    (adds.typing_prepared describes)
  exact (finished.holds _ _ origin.run.part.after).1

/-- What the blocks of a finished function hold: well-typed code, and behind it what hands the return values
over where the block returns. -/
theorem block_inv (origin : Origin context last definition function)
    (typed : origin.finish.state.WellTyped context) {block : Ir.BasicBlock}
    (member : block ∈ function.blocks) :
    ∃ code tail supply, block.instructions = code ++ tail ∧
      WellTypedCode (context.promises origin.finish.state.module) function.locals code ∧
      (tail = [] ∧ (∀ value, block.terminator ≠ .ret value) ∨
        tail = returnCode supply (spillSlots (origin.returns.length - 1)) origin.returns ∧
          block.terminator = .ret (directResult supply origin.returns)) := by
  obtain ⟨exit, before, found, isExit, others⟩ := origin.shape
  obtain ⟨position, isBlock⟩ := List.mem_iff_getElem?.mp member
  have isBlock : function.block? ⟨position⟩ = some block := isBlock
  rw [origin.locals_eq]
  by_cases isEnd : ⟨position⟩ = exit
  · rw [isEnd, isExit] at isBlock
    obtain rfl := Option.some.inj isBlock
    exact ⟨before.instructions, _, _, rfl, typed.code exit before found, .inr ⟨rfl, rfl⟩⟩
  · rw [others _ isEnd] at isBlock
    refine ⟨block.instructions, [], 0, (List.append_nil _).symm, typed.code _ block isBlock,
      .inl ⟨rfl, ?_⟩⟩
    intro value returns
    apply origin.flows.returnless ⟨position⟩ value
    rw [Ir.Function.exit?, isBlock, Option.map_some, returns]

/-- The code that hands the return values over is there. -/
theorem mem_instructions (origin : Origin context last definition function) :
    ∀ instruction ∈ returnCode origin.finish.draft.function.valueSupply
        (spillSlots (origin.returns.length - 1)) origin.returns,
      instruction ∈ function.instructions := by
  obtain ⟨exit, before, -, isExit, -⟩ := origin.shape
  intro instruction member
  exact List.mem_flatMap.mpr ⟨_, List.mem_of_getElem? isExit, List.mem_append_right _ member⟩

/-- A function fills the shared slots with its results. -/
theorem fills (origin : Origin context last definition function)
    (typed : origin.finish.state.WellTyped context) {types : TypeNames}
    (describes : Describes types index definition origin.signature)
    {slot : Ir.GlobalId} {type : Ir.ValueType}
    (isResult : origin.signature.results[slot.index + 1]? = some type) :
    function.Fills slot type := by
  rw [← origin.types_returns describes, List.getElem?_map, Option.map_eq_some_iff] at isResult
  obtain ⟨source, found, rfl⟩ := isResult
  constructor
  · obtain ⟨value, -, member⟩ := store_mem_returnCode _ found
    exact ⟨value, origin.mem_instructions _ member⟩
  · intro value member
    obtain ⟨block, isBlock, member⟩ := List.mem_flatMap.mp member
    obtain ⟨code, tail, supply, split, typedCode, ends⟩ := origin.block_inv typed isBlock
    rw [split] at member
    rcases List.mem_append.mp member with member | member
    · exact absurd member (typedCode.store_notMem slot value)
    · rcases ends with ⟨rfl, -⟩ | ⟨rfl, -⟩
      · cases member
      · rcases mem_returnCode member with ⟨_, _, impossible⟩ | ⟨other, position, stored, isOther, typed, same⟩
        · cases impossible
        · cases same
          rw [found] at isOther
          cases isOther
          exact typed

end Origin

/-! ## Whole programs -/

/-- A lowered program that is well typed in the source. -/
structure Compiled.WellTyped {dialect : Dialect} {types : TypeNames} {program : Block}
    {module : Ir.Module} (compiled : Compiled dialect types program module) : Prop where
  valued : types.Valued
  distinct : (compiled.definitions.map Definition.name).Nodup
  apart : ∀ definition ∈ compiled.definitions, definition.initialisesApart = true
  bodies : ∀ definition ∈ compiled.definitions,
    definition.isWellTyped ⟨dialect, types, compiled.definitions⟩ = true

namespace Compiled

variable {dialect : Dialect} {types : TypeNames} {program : Block} {module : Ir.Module}
  {compiled : Compiled dialect types program module} {index : Nat}

theorem Entry.describes_origin (entry : compiled.Entry index)
    (distinct : (compiled.definitions.map Definition.name).Nodup) :
    Describes types index entry.definition entry.origin.signature := by
  rw [entry.origin_signature distinct]
  exact entry.describes

theorem Entry.wellTyped_finish (entry : compiled.Entry index) (wellTyped : compiled.WellTyped) :
    entry.origin.finish.state.WellTyped ⟨dialect, types, compiled.signatures⟩ := by
  have member := List.mem_of_getElem? entry.isDefinition
  exact entry.origin.wellTyped_finish
    (reflects_of_signatures wellTyped.distinct compiled.areSignatures) wellTyped.valued
    (wellTyped.apart _ member) (wellTyped.bodies _ member) (entry.describes_origin wellTyped.distinct)

/-- All builtins that have been declared in front of the end of a function are declared in the module. -/
theorem Entry.externals (entry : compiled.Entry index) :
    entry.origin.finish.state.module.externals <+: module.externals := by
  have kept := entry.origin.extends_last.externals
  have isLast : compiled.last.module.externals = module.externals :=
    congrArg Ir.Module.externals compiled.isModule.symm
  have returned : (entry.origin.finish.state.returned entry.origin.returns).module.externals =
      entry.origin.finish.state.module.externals := State.externals_reserved _ _
  rwa [State.progress, returned, isLast] at kept

/-- A function has the types that its signature tells. -/
theorem interface_of_declares (distinct : (compiled.definitions.map Definition.name).Nodup)
    {inner : Ir.Module} (grow : inner.externals <+: module.externals) {callee : Ir.Callee}
    {interface : Ir.Interface}
    (declared : (Context.promises ⟨dialect, types, compiled.signatures⟩ inner).declares callee
      interface) : module.interface? callee = some interface := by
  cases callee with
  | builtin name effects =>
      obtain ⟨external, found, rfl⟩ := declared
      rw [Ir.Module.interface?, external?_of_prefix grow found]
      rfl
  | function id =>
      obtain ⟨signature, member, rfl, rfl⟩ := declared
      obtain ⟨index, entry, rfl⟩ := compiled.entry_of_signature member
      have parameters := congrArg (List.map Ir.Value.type) entry.origin.grows.parameters
      rw [map_type_parameters, entry.origin_signature distinct] at parameters
      have resultType : entry.function.resultType = entry.origin.signature.resultType :=
        entry.origin.grows.resultType
      rw [entry.origin_signature distinct] at resultType
      rw [Ir.Module.interface?, entry.describes.id, Ir.Module.function?, entry.isFunction,
        Option.map_some, parameters, resultType]

/-- A function hands over results of the types that its callers expect. -/
theorem fills_of_spills (wellTyped : compiled.WellTyped) {inner : Ir.Module} {id : Ir.FunctionId}
    {slot : Ir.GlobalId} {type : Ir.ValueType}
    (spills :
      (Context.promises ⟨dialect, types, compiled.signatures⟩ inner).Spills id slot type) :
    ∃ callee, module.function? id = some callee ∧ callee.Fills slot type := by
  obtain ⟨_, ⟨signature, member, rfl, rfl⟩, isResult⟩ := spills
  obtain ⟨index, entry, rfl⟩ := compiled.entry_of_signature member
  rw [← entry.origin_signature wellTyped.distinct] at isResult
  refine ⟨entry.function, ?_, entry.origin.fills (entry.wellTyped_finish wellTyped)
    (entry.describes_origin wellTyped.distinct) isResult⟩
  rw [entry.describes.id]
  exact entry.isFunction

/-- The direct result has the type that the function has been declared with. -/
theorem Entry.type_directResult (entry : compiled.Entry index) (wellTyped : compiled.WellTyped)
    (supply : Nat) :
    (directResult supply entry.origin.returns).map Ir.Value.type =
      entry.function.resultType.carried? := by
  have describes := entry.describes_origin wellTyped.distinct
  have resultType : entry.function.resultType = entry.origin.signature.resultType :=
    entry.origin.grows.resultType
  have direct : (directResult supply entry.origin.returns).map Ir.Value.type =
      entry.origin.signature.results.head? := by
    rw [← entry.origin.types_returns describes, List.head?_map, directResult, Option.map_map]
    rfl
  rw [resultType, Signature.resultType, direct]
  exact (carried?_head? (TypeNames.resolveAll_ne_void wellTyped.valued describes.results)).symm

theorem Entry.wellTyped (entry : compiled.Entry index) (wellTyped : compiled.WellTyped) :
    entry.function.WellTyped module := by
  have typed := entry.wellTyped_finish wellTyped
  constructor
  case instructions =>
    intro instruction member
    obtain ⟨block, isBlock, member⟩ := List.mem_flatMap.mp member
    obtain ⟨code, tail, supply, split, typedCode, ends⟩ := entry.origin.block_inv typed isBlock
    rw [split] at member
    rcases List.mem_append.mp member with member | member
    · exact (typedCode.instructions instruction member).mono
        (fun _ _ => interface_of_declares wellTyped.distinct entry.externals) (List.prefix_refl _)
    · rcases ends with ⟨rfl, -⟩ | ⟨rfl, -⟩
      · cases member
      · rcases mem_returnCode member with ⟨_, _, rfl⟩ | ⟨_, _, _, -, -, rfl⟩ <;> trivial
  case readsBack =>
    intro block isBlock
    obtain ⟨code, tail, supply, split, typedCode, ends⟩ := entry.origin.block_inv typed isBlock
    rw [split]
    refine (typedCode.readsBack.mono fun _ _ _ => fills_of_spills wellTyped).append (.of_quiet ?_)
    intro dest slot member
    rcases ends with ⟨rfl, -⟩ | ⟨rfl, -⟩
    · cases member
    · rcases mem_returnCode member with ⟨_, _, impossible⟩ | ⟨_, _, _, -, -, impossible⟩ <;>
        cases impossible
  case returns =>
    intro block isBlock value returns
    obtain ⟨code, tail, supply, -, -, ⟨-, none⟩ | ⟨-, isReturn⟩⟩ :=
      entry.origin.block_inv typed isBlock
    · exact absurd returns (none value)
    · rw [isReturn] at returns
      cases returns
      exact entry.type_directResult wellTyped supply

end Compiled

end Lowering

/-- A program that is well typed in the source becomes a module in which stores have the types of their
slots, calls and returns those that functions and builtins are declared with, and results those that they
are handed over with. -/
theorem Block.wellTyped_of_toModule {dialect : Dialect} {types : Lowering.TypeNames}
    {default name : String} {program : Block} {definitions : List Definition} {module : Ir.Module}
    (made : Lowering.TypeNames.ofDefaultName default = .ok types)
    (areDefinitions : program.definitions = .ok definitions)
    (distinct : (definitions.map Definition.name).Nodup)
    (apart : ∀ definition ∈ definitions, definition.initialisesApart = true)
    (wellTyped : ∀ definition ∈ definitions,
      definition.isWellTyped ⟨dialect, types, definitions⟩ = true)
    (lowered : program.toModule dialect types name = .ok module) :
    ∀ function ∈ module.functions, function.WellTyped module := by
  obtain ⟨compiled⟩ := Lowering.toModule_inv lowered
  obtain rfl : compiled.definitions = definitions :=
    Except.ok.inj (compiled.areDefinitions.symm.trans areDefinitions)
  have compiledTyped : compiled.WellTyped :=
    ⟨Lowering.TypeNames.valued_of_ofDefaultName made, distinct, apart, wellTyped⟩
  intro function member
  obtain ⟨index, bound, isFunction⟩ := List.mem_iff_getElem.mp member
  obtain ⟨entry, rfl⟩ := compiled.entry_of_function (List.getElem?_eq_some_iff.mpr ⟨bound, isFunction⟩)
  exact entry.wellTyped compiledTyped

/-- A function with results of several types, and one that receives them in variables of these types. One
of them hides a variable of another type, and decides about a loop. -/
def narrowResults : Block :=
  [.definition "split" [⟨"a", ""⟩] [⟨"low", "u8"⟩, ⟨"flag", "bool"⟩, ⟨"rest", ""⟩]
      [.assignment ["low"] (.call "trunc" [.identifier "a"]), .assignment ["rest"] (.identifier "a")],
    .definition "f" [⟨"x", ""⟩] [⟨"r", "u8"⟩]
      [.loop [.declaration [⟨"go", "bool"⟩] (some (.literal ⟨.boolean, "true", ""⟩))] (.identifier "go")
        []
        [.declaration [⟨"y", "u8"⟩, ⟨"more", "bool"⟩, ⟨"z", ""⟩] (some (.call "split" [.identifier "x"])),
          .declaration [⟨"x", "u8"⟩] (some (.identifier "y")),
          .assignment ["r"] (.identifier "x"),
          .assignment ["go"] (.identifier "more"),
          .expression (.call "log" [.call "trunc" [.identifier "z"]])]]]

/-- Builtins that cut a value to eight bits and that add such a value to a log. -/
def narrowBuiltins : Dialect :=
  ⟨.strict, [.ofMovability "trunc" [""] ["u8"] true false, .ofMovability "log" ["u8"] [] false false]⟩

theorem Block.wellTyped_of_toModule_narrowResults :
    ∃ module, narrowResults.definitions = .ok narrowResults.functions ∧
      (narrowResults.functions.map Definition.name).Nodup ∧
      (∀ definition ∈ narrowResults.functions, definition.initialisesApart = true) ∧
      (∀ definition ∈ narrowResults.functions,
        definition.isWellTyped ⟨narrowBuiltins, .standard, narrowResults.functions⟩ = true) ∧
      narrowResults.toModule narrowBuiltins .standard "m" = .ok module ∧
      ∀ function ∈ module.functions, function.WellTyped module := by
  have isOk : (narrowResults.toModule narrowBuiltins .standard "m").isOk = true := by
    decide +kernel
  have made : Lowering.TypeNames.ofDefaultName "u256" = .ok .standard := by decide +kernel
  have areDefinitions : narrowResults.definitions = .ok narrowResults.functions := rfl
  have distinct : (narrowResults.functions.map Definition.name).Nodup := by decide +kernel
  obtain ⟨module, lowered⟩ := Lowering.exists_of_isOk isOk
  refine ⟨module, areDefinitions, distinct, ?apart, ?wellTyped, lowered,
    Block.wellTyped_of_toModule made areDefinitions distinct ?apart ?wellTyped lowered⟩
  case apart => decide +kernel
  case wellTyped => decide +kernel

/-- A declaration whose initialiser reads the variable that it hides. -/
def hidingInitialiser : Block :=
  [.definition "trunc" [⟨"a", ""⟩] [⟨"r", "u8"⟩] [],
    .definition "f" [⟨"x", ""⟩] [] [.declaration [⟨"x", "u8"⟩] (some (.call "trunc" [.identifier "x"]))]]

/-- The initialiser reads the new variable instead of the old one. Their types differ, and the call gets an
argument of the wrong type. -/
theorem Block.not_wellTyped_of_toModule_hidingInitialiser :
    ∃ module, hidingInitialiser.definitions = .ok hidingInitialiser.functions ∧
      (hidingInitialiser.functions.map Definition.name).Nodup ∧
      (∀ definition ∈ hidingInitialiser.functions,
        definition.isWellTyped ⟨.empty .strict, .standard, hidingInitialiser.functions⟩ = true) ∧
      hidingInitialiser.toModule (.empty .strict) .standard "m" = .ok module ∧
      ¬ ∀ function ∈ module.functions, function.WellTyped module := by
  have areDefinitions : hidingInitialiser.definitions = .ok hidingInitialiser.functions := rfl
  have distinct : (hidingInitialiser.functions.map Definition.name).Nodup := by decide +kernel
  have agrees : (hidingInitialiser.toModule (.empty .strict) .standard "m").map (fun module =>
      (module.interface? (.function ⟨0⟩),
        module.functions[1]?.map fun function => function.instructions[4]?)) =
      .ok (some ⟨[.int 256], .int 8⟩, some (some (.call (some ⟨⟨2⟩, .int 8⟩) (.function ⟨0⟩)
        [⟨⟨1⟩, .int 8⟩]))) := by decide +kernel
  cases lowered : hidingInitialiser.toModule (.empty .strict) .standard "m" with
  | error error =>
      rw [lowered] at agrees
      cases agrees
  | ok module =>
      refine ⟨module, areDefinitions, distinct, by decide +kernel, rfl, ?_⟩
      rw [lowered] at agrees
      obtain ⟨declared, read⟩ := Prod.mk.inj (Except.ok.inj agrees)
      obtain ⟨function, isFunction, isCall⟩ := Option.map_eq_some_iff.mp read
      intro wellTyped
      obtain ⟨interface, isDeclared, passed, -⟩ :=
        (wellTyped function (List.mem_of_getElem? isFunction)).instructions _ (List.mem_of_getElem? isCall)
      obtain rfl := Option.some.inj (declared.symm.trans isDeclared)
      cases passed

end YulLowering
