import YulLowering.Proofs.Linking.Programs
import YulLowering.Proofs.Sight
import YulLowering.Proofs.Spilling

/-!
# The spill protocol

The second and later results of a function travel through slots that all functions share. A function
fills them at its very end, where it calls nothing any more, and a caller empties them right after
the call. Nowhere else are they touched, so whatever a caller reads has been written by the function
that it has just called. It goes to the variables that the source gives it to, in their order. The
module has exactly as many of these slots as its functions need.
-/

namespace YulLowering

namespace Lowering

/-! ## Code in parts -/

namespace Segment

/-- The number of the direct result of a call whose results go to several variables. -/
def result? : Segment → Option Nat
  | plain _ => none
  | receive result _ _ _ _ => some result.id.index

/-- The results of two calls are numbered one after the other. -/
def Precedes (segment later : Segment) : Prop :=
  ∀ number ∈ segment.result?, ∀ next ∈ later.result?, number < next

/-- A plain instruction touches no shared slot. A call whose results go to several variables is one
of a function with as many results; `returns` tells how many results functions have. -/
def Keeps (returns : Ir.FunctionId → Nat → Prop) : Segment → Prop
  | plain instruction => instruction.globals = []
  | receive _ callee _ _ others => others ≠ [] ∧ returns callee (others.length + 1)

/-- A call whose results go to the slots of the variables that the source gives them to, one after the
other; `calls` tells which functions names mean. -/
def Delivers (calls : String → Ir.FunctionId → Prop) (delivery : Delivery) : Segment → Prop
  | plain _ => False
  | receive _ callee _ first others =>
    calls delivery.callee callee ∧
      delivery.targets = (first :: others).map fun binding => some binding.slot.index

theorem Keeps.mono {returns more : Ir.FunctionId → Nat → Prop} {segment : Segment}
    (weaken : ∀ id count, returns id count → more id count) (keeps : segment.Keeps returns) :
    segment.Keeps more := by
  cases segment with
  | plain => exact keeps
  | receive _ callee _ _ others => exact keeps.imp_right (weaken callee _)

theorem Delivers.mono {calls more : String → Ir.FunctionId → Prop} {delivery : Delivery}
    {segment : Segment} (weaken : ∀ name id, calls name id → more name id)
    (delivers : segment.Delivers calls delivery) : segment.Delivers more delivery := by
  cases segment with
  | plain => exact delivers
  | receive _ callee _ _ others => exact delivers.imp_left (weaken delivery.callee callee)

end Segment

/-- The parts that take results out of shared slots. -/
def receiving (parts : List (List Segment)) : List Segment :=
  parts.flatten.filter fun segment => segment.result?.isSome

/-- The code of several blocks in parts, block by block, whose results are numbered below `supply`. -/
structure Parted (returns : Ir.FunctionId → Nat → Prop) (calls : String → Ir.FunctionId → Prop)
    (deliveries : List Delivery) (supply : Nat) (codes : List (List Ir.Instruction))
    (parts : List (List Segment)) : Prop where
  whole : codes = parts.map (List.flatMap Segment.code)
  keeps : ∀ segment ∈ parts.flatten, segment.Keeps returns
  numbered : ∀ segment ∈ parts.flatten, ∀ number ∈ segment.result?, number < supply
  /-- In the order in which their results are numbered, the parts that take results out of shared slots
  are what the deliveries ask for, one by one. -/
  delivers : ∃ received, (receiving parts).Perm received ∧ received.Pairwise Segment.Precedes ∧
    List.Forall₂ (Segment.Delivers calls) deliveries received

/-- What is added to one of several lists is added to what they hold. -/
theorem perm_flatten_modify {α : Type} {lists : List (List α)} {index : Nat}
    (bound : index < lists.length) (more : List α) :
    (lists.modify index (· ++ more)).flatten.Perm (lists.flatten ++ more) := by
  have grown : ((lists.modify index (· ++ more)).flatMap id).Perm (lists.flatMap id ++ more) :=
    Ir.flatMap_modify_perm (List.getElem?_eq_getElem bound) (.refl _)
  rwa [List.flatMap_id, List.flatMap_id] at grown

namespace Parted

variable {returns : Ir.FunctionId → Nat → Prop} {calls : String → Ir.FunctionId → Prop}
  {deliveries : List Delivery} {supply later : Nat} {codes : List (List Ir.Instruction)}
  {parts : List (List Segment)}

theorem mono {more : Ir.FunctionId → Nat → Prop} {others : String → Ir.FunctionId → Prop}
    (parted : Parted returns calls deliveries supply codes parts)
    (weaken : ∀ id count, returns id count → more id count)
    (weakenCalls : ∀ name id, calls name id → others name id) :
    Parted more others deliveries supply codes parts where
  whole := parted.whole
  keeps segment member := (parted.keeps segment member).mono weaken
  numbered := parted.numbered
  delivers := by
    obtain ⟨received, perm, sorted, delivers⟩ := parted.delivers
    exact ⟨received, perm, sorted, delivers.imp fun _ _ => .mono weakenCalls⟩

/-- A function begins with a block that has no code. -/
theorem single (supply : Nat) : Parted returns calls [] supply [[]] [[]] where
  whole := rfl
  keeps := by simp
  numbered := by simp
  delivers := ⟨[], .refl _, .nil, .nil⟩

/-- Blocks without code change nothing. -/
theorem blocks (parted : Parted returns calls deliveries supply codes parts) (count : Nat) :
    Parted returns calls deliveries supply (codes ++ List.replicate count [])
      (parts ++ List.replicate count []) where
  whole := by simp [parted.whole]
  keeps := by simpa using parted.keeps
  numbered := by simpa using parted.numbered
  delivers := by simpa [receiving] using parted.delivers

/-- One part more, at the end of one of the blocks. If it is a call whose results go to several
variables, its result has a number that no other value has had. -/
theorem add (parted : Parted returns calls deliveries supply codes parts) {index : Nat}
    (bound : index < codes.length) {segment : Segment} (keeps : segment.Keeps returns)
    (grows : supply ≤ later) (fresh : ∀ number ∈ segment.result?, supply ≤ number ∧ number < later)
    {more : List Delivery}
    (delivers : List.Forall₂ (Segment.Delivers calls) more (receiving [[segment]])) :
    Parted returns calls (deliveries ++ more) later (codes.modify index (· ++ segment.code))
      (parts.modify index (· ++ [segment])) := by
  have bound : index < parts.length := by
    rwa [parted.whole, List.length_map] at bound
  have perm := perm_flatten_modify bound [segment]
  have member {other : Segment} (isPart : other ∈ (parts.modify index (· ++ [segment])).flatten) :
      other ∈ parts.flatten ∨ other = segment :=
    (List.mem_append.mp (perm.mem_iff.mp isPart)).imp_right List.mem_singleton.mp
  constructor
  case whole =>
    rw [parted.whole]
    refine (Ir.map_modify (fun part => ?_) _ _).symm
    rw [List.flatMap_append, List.flatMap_singleton]
  case keeps =>
    intro other isPart
    rcases member isPart with old | rfl
    · exact parted.keeps other old
    · exact keeps
  case numbered =>
    intro other isPart number isNumber
    rcases member isPart with old | rfl
    · exact Nat.lt_of_lt_of_le (parted.numbered other old number isNumber) grows
    · exact (fresh number isNumber).2
  case delivers =>
    obtain ⟨received, same, sorted, deliversOld⟩ := parted.delivers
    refine ⟨received ++ receiving [[segment]], ?_, ?_, List.rel_append deliversOld delivers⟩
    · have filtered := perm.filter fun segment => segment.result?.isSome
      rw [List.filter_append] at filtered
      exact filtered.trans (same.append_right _)
    · have alone : (receiving [[segment]]).Pairwise Segment.Precedes :=
        (List.pairwise_singleton _ segment).filter _
      refine List.pairwise_append.mpr ⟨sorted, alone, ?_⟩
      intro other isOther new isNew number isNumber next isNext
      obtain rfl := List.mem_singleton.mp (List.mem_of_mem_filter isNew)
      have isPart := List.mem_of_mem_filter (same.mem_iff.mpr isOther)
      exact Nat.lt_of_lt_of_le (parted.numbered other isPart number isNumber) (fresh next isNext).1

/-- An instruction that touches no shared slot can be added anywhere. -/
theorem addPlain (parted : Parted returns calls deliveries supply codes parts) (index : Nat)
    {instruction : Ir.Instruction} (own : instruction.globals = []) (grows : supply ≤ later) :
    ∃ parts, Parted returns calls deliveries later (codes.modify index (· ++ [instruction])) parts := by
  by_cases bound : index < codes.length
  · have keeps : (Segment.plain instruction).Keeps returns := own
    have added := parted.add bound keeps grows (fun _ isNumber => by cases isNumber) .nil
    rw [List.append_nil] at added
    exact ⟨_, added⟩
  · rw [List.modify_eq_self (Nat.le_of_not_lt bound)]
    exact ⟨parts, { parted with
      numbered := fun segment isPart number isNumber =>
        Nat.lt_of_lt_of_le (parted.numbered segment isPart number isNumber) grows }⟩

end Parted

/-! ## Along a trace -/

/-- Which functions the called names mean in a program. -/
def Context.Calls (context : Context) (name : String) (id : Ir.FunctionId) : Prop :=
  ∃ signature, context.resolveCall name = .ok (.function signature) ∧ signature.id = id

/-- The code of a state can be parted so that results are received as deliveries ask for it. -/
def State.Parted (state : State) (context : Context) (deliveries : List Delivery) : Prop :=
  ∃ parts, Lowering.Parted context.Returns context.Calls deliveries state.draft.function.valueSupply
    state.draft.function.codes parts

variable {context : Context} {events : List Event} {state later : State} {sight : Sight}
  {deliveries : List Delivery}

theorem Edit.pooled (edit : Edit context events state later) (pooled : state.progress.Pooled) :
    later.progress.Pooled := by
  cases edit with
  | quiet quiet => exact quiet.pooled pooled
  | callBuiltin call builtin external =>
      have globals := (State.progress_imported state external).2
      show state.spills.slots = spillSlots (state.imported external).module.globals.length
      rw [globals]
      exact pooled
  | enter | leave | write | declare | callFunction | receiveOne | receive => exact pooled

theorem State.Parted.write (parted : state.Parted context deliveries) {instruction : Ir.Instruction}
    (own : instruction.globals = []) : (state.written instruction).Parted context deliveries := by
  obtain ⟨parts, parted⟩ := parted
  have grows : state.draft.function.valueSupply ≤
      (state.draft.write instruction).function.valueSupply := Nat.le_add_right _ _
  have added := parted.addPlain state.draft.cursor.index own grows
  rwa [← Ir.Draft.codes_write] at added

theorem State.Parted.declare (parted : state.Parted context deliveries) (name : String)
    (type : Ir.ValueType) : (state.declared name type).Parted context deliveries := by
  obtain ⟨parts, parted⟩ := parted
  have own : (Ir.Instruction.reserve state.draft.nextLocal type).globals = [] := rfl
  have added := parted.addPlain state.draft.function.entry.index own (Nat.le_refl _)
  rwa [← Ir.Draft.codes_reserve state.draft name] at added

/-- The results of a call are received by the variables that a delivery is for. -/
theorem State.Parted.receive (parted : state.Parted context deliveries)
    (anchored : state.draft.Anchored) {result : Ir.Value} {callee : Ir.FunctionId}
    {arguments : List Ir.Value} {first : Binding} {others : List Binding} {delivery : Delivery}
    {type : Ir.ValueType} (hasResult : state.draft.callResult type = some result)
    (keeps : (Segment.receive result callee arguments first others).Keeps context.Returns)
    (delivers : (Segment.receive result callee arguments first others).Delivers context.Calls delivery) :
    { state with
      draft := writeAll state.draft
        (Segment.receive result callee arguments first others).code }.Parted context
      (deliveries ++ [delivery]) := by
  obtain ⟨parts, parted⟩ := parted
  let segment := Segment.receive result callee arguments first others
  have grows : state.draft.function.valueSupply <
      (writeAll state.draft segment.code).function.valueSupply :=
    valueSupply_le_writeAll (state.draft.write (.call (some result) (.function callee) arguments)) _
  have fresh : ∀ number ∈ segment.result?, state.draft.function.valueSupply ≤ number ∧
      number < (writeAll state.draft segment.code).function.valueSupply := by
    intro number isNumber
    obtain rfl := Option.some.inj isNumber
    have isNext : result.id.index = state.draft.function.valueSupply := by
      rw [Ir.Draft.callResult_eq_some hasResult]
      rfl
    rw [isNext]
    exact ⟨Nat.le_refl _, grows⟩
  have bound : state.draft.cursor.index < state.draft.function.codes.length := by
    rwa [Ir.Function.codes, List.length_map]
  have added := parted.add bound keeps (Nat.le_of_lt grows) fresh (.cons delivers .nil)
  rw [← codes_writeAll] at added
  exact ⟨_, added⟩

/-- An edit receives what the events that it answers deliver. -/
theorem Edit.parted (edit : Edit context events state later) (anchored : state.draft.Anchored)
    (pooled : state.progress.Pooled) (shows : state.Shows sight)
    (parted : state.Parted context deliveries) :
    later.Parted context (deliveries ++ sight.deliveries events) := by
  -- Most edits answer events that deliver nothing.
  have silent (nothing : sight.deliveries events = []) (still : later.Parted context deliveries) :
      later.Parted context (deliveries ++ sight.deliveries events) := by
    rw [nothing, List.append_nil]
    exact still
  cases edit with
  | quiet quiet =>
      obtain ⟨parts, parted⟩ := parted
      obtain ⟨count, codes⟩ := quiet.codes
      have blocks := parted.blocks count
      rw [← codes, ← quiet.supply] at blocks
      exact silent rfl ⟨_, blocks⟩
  | write instruction plain own => exact silent rfl (parted.write own)
  | declare name type => exact silent rfl (parted.declare name type)
  | callFunction => exact silent rfl (parted.write rfl)
  | callBuiltin call builtin external =>
      have imported : (state.imported external).Parted context deliveries := parted
      exact silent rfl (imported.write rfl)
  | enter | leave => exact silent rfl parted
  | receiveOne targets value few =>
      have nothing : sight.deliveries [.received targets value] = [] := by
        rw [Sight.deliveries, sight.delivery?_of_few few]
        rfl
      exact silent nothing parted
  | receive call targets signature result arguments first others resolved count several hasResult
      enough aims =>
      have two : 2 ≤ targets.count := by
        rw [← aims.length_eq]
        exact Nat.succ_le_succ (List.length_pos_of_ne_nil several)
      have isDelivery : sight.deliveries
          [.called call, .received targets (.call call.callee call.arguments)] =
            [⟨call.callee, sight.targets targets⟩] := by
        show (sight.delivery? (.received targets (.call call.callee call.arguments))).toList ++ [] = _
        rw [sight.delivery?_of_several two]
        rfl
      have slots : others.zip state.spills.slots = others.zip (spillSlots others.length) :=
        pooled.zip_slots enough
      rw [isDelivery, slots]
      exact parted.receive anchored hasResult
        ⟨several, signature, mem_of_resolveCall resolved, rfl, count⟩
        ⟨⟨signature, resolved, rfl⟩, shows.targets_eq aims⟩

/-- Along a trace, all that the events of the source deliver is received. -/
theorem Trace.parted (trace : Trace context events state later) (anchored : state.draft.Anchored)
    (pooled : state.progress.Pooled) (shows : state.Shows sight)
    (parted : state.Parted context deliveries) :
    later.Parted context (deliveries ++ sight.deliveries events) := by
  induction trace generalizing sight deliveries with
  | refl =>
      rw [Sight.deliveries, List.append_nil]
      exact parted
  | edit edit _ ih =>
      have first := edit.parted anchored pooled shows parted
      rw [Sight.deliveries_append, ← List.append_assoc]
      exact ih (edit.anchored anchored) (edit.pooled pooled) (edit.shows shows) first

variable {last : Progress} {definition : Definition} {function : Ir.Function}

/-- Until its return values are handed over, a function has received what its definition delivers. -/
theorem Origin.parted (origin : Origin context last definition function) :
    origin.finish.state.Parted context
      (Sight.empty.deliveries (origin.signature.events definition)) :=
  origin.run.trace.parted Nat.zero_lt_one origin.pooled
    (origin.before.shows definition.name origin.signature) ⟨[[]], .single _⟩

/-- The code that hands the return values over stands at the end of the block that returns. -/
theorem Origin.codes (origin : Origin context last definition function) :
    ∃ exit block, function.block? exit = some block ∧
      block.terminator =
        .ret (directResult origin.finish.draft.function.valueSupply origin.returns) ∧
      exit.index < origin.finish.draft.function.codes.length ∧
      function.codes = origin.finish.draft.function.codes.modify exit.index
        (· ++ returnCode origin.finish.draft.function.valueSupply
          (spillSlots (origin.returns.length - 1)) origin.returns) := by
  obtain ⟨exit, block, found, isExit, others⟩ := origin.shape
  obtain ⟨bound, -⟩ := List.getElem?_eq_some_iff.mp found
  refine ⟨exit, _, isExit, rfl, by rwa [Ir.Function.codes, List.length_map], ?_⟩
  apply List.ext_getElem?
  intro index
  rw [List.getElem?_modify, Ir.Function.codes, Ir.Function.codes, List.getElem?_map, List.getElem?_map]
  show (function.block? ⟨index⟩).map _ = _ <$> (origin.finish.draft.function.block? ⟨index⟩).map _
  by_cases same : exit.index = index
  · obtain rfl := same
    rw [show (⟨exit.index⟩ : Ir.BlockId) = exit from rfl, isExit, found]
    exact congrArg some (if_pos rfl).symm
  · have differs : (⟨index⟩ : Ir.BlockId) ≠ exit := by
      rintro rfl
      exact same rfl
    rw [others _ differs]
    simp [same]

/-! ## Slots that code names -/

/-- Copies name the shared slots that they copy from and to. -/
theorem mem_globals_transferCode {transfers : List Transfer} {supply : Nat}
    {instruction : Ir.Instruction} {slot : Ir.GlobalId}
    (member : instruction ∈ transferCode supply transfers) (named : slot ∈ instruction.globals) :
    ∃ transfer ∈ transfers, transfer.source = .ofGlobal slot ∨ transfer.target = .ofGlobal slot := by
  obtain ⟨⟨type, source, target⟩, isTransfer, value, -, rfl | rfl⟩ := mem_transferCode member
  · cases source with
    | ofLocal => cases named
    | ofGlobal => exact ⟨_, isTransfer, .inl (List.mem_singleton.mp named ▸ rfl)⟩
  · cases target with
    | ofLocal => cases named
    | ofGlobal => exact ⟨_, isTransfer, .inr (List.mem_singleton.mp named ▸ rfl)⟩

theorem index_lt_of_returnCode {supply : Nat} {returns : List Binding}
    {instruction : Ir.Instruction} {slot : Ir.GlobalId}
    (member : instruction ∈ returnCode supply (spillSlots (returns.length - 1)) returns)
    (named : slot ∈ instruction.globals) : slot.index < returns.length - 1 := by
  cases returns with
  | nil => cases member
  | cons first others =>
      rcases List.mem_cons.mp member with rfl | member
      · cases named
      · obtain ⟨transfer, isTransfer, copies⟩ := mem_globals_transferCode member named
        obtain ⟨pair, paired, rfl⟩ := List.mem_map.mp isTransfer
        rcases copies with source | target
        · cases source
        · cases target
          exact index_lt_of_mem_zip paired

theorem Segment.Keeps.index_lt {returns : Ir.FunctionId → Nat → Prop} {bound : Nat}
    {segment : Segment} (keeps : segment.Keeps returns)
    (bounded : ∀ id count, returns id count → count - 1 ≤ bound)
    {instruction : Ir.Instruction} {slot : Ir.GlobalId} (member : instruction ∈ segment.code)
    (named : slot ∈ instruction.globals) : slot.index < bound := by
  cases segment with
  | plain plain =>
      obtain rfl := List.mem_singleton.mp member
      rw [keeps] at named
      cases named
  | receive result callee arguments first others =>
      obtain ⟨-, known⟩ := keeps
      rcases List.mem_cons.mp member with rfl | member
      · cases named
      rcases List.mem_cons.mp member with rfl | member
      · cases named
      obtain ⟨transfer, isTransfer, copies⟩ := mem_globals_transferCode member named
      obtain ⟨pair, paired, rfl⟩ := List.mem_map.mp isTransfer
      rcases copies with source | target
      · cases source
        exact (index_lt_of_mem_zip paired).trans_le (bounded callee _ known)
      · cases target

theorem Parted.index_lt {returns : Ir.FunctionId → Nat → Prop}
    {calls : String → Ir.FunctionId → Prop} {codes : List (List Ir.Instruction)}
    {parts : List (List Segment)} {supply bound : Nat}
    (parted : Parted returns calls deliveries supply codes parts)
    (bounded : ∀ id count, returns id count → count - 1 ≤ bound)
    {instruction : Ir.Instruction} {slot : Ir.GlobalId} (member : instruction ∈ codes.flatten)
    (named : slot ∈ instruction.globals) : slot.index < bound := by
  obtain ⟨code, isCode, member⟩ := List.mem_flatten.mp member
  rw [parted.whole] at isCode
  obtain ⟨part, isPart, rfl⟩ := List.mem_map.mp isCode
  obtain ⟨segment, isSegment, member⟩ := List.mem_flatMap.mp member
  exact (parted.keeps segment (List.mem_flatten_of_mem isPart isSegment)).index_lt bounded member named

/-! ## Whole programs -/

/-- A function that keeps to the protocol. The block that returns ends with code that reads the
return variables and writes the spill slots; all other code reads shared slots after calls only, for
the variables that the source gives the results to. -/
structure HandsOver (dialect : Dialect) (module : Ir.Module) (definition : Definition)
    (function : Ir.Function) : Prop where
  resultCount : function.resultCount = definition.returns.length
  /-- A slot has the number of the variable that it is for. -/
  names : function.locals.map Ir.LocalSlot.name = definition.variables
  exit : ∃ exit block supply returns codes parts,
    function.block? exit = some block ∧
    block.terminator = .ret (directResult supply returns) ∧
    ReturnVariables definition function returns ∧
    function.codes = codes.modify exit.index
      (· ++ returnCode supply (spillSlots (returns.length - 1)) returns) ∧
    Parted module.Returns (fun name id => module.callee? dialect name = some (.function id))
      definition.deliveries supply codes parts
  declared : ∀ instruction ∈ function.instructions, ∀ slot ∈ instruction.globals,
    slot.index < module.globals.length

/-- A signature has as many parameters and results as its definition. -/
theorem Describes.events_eq {types : TypeNames} {index : Nat} {signature : Signature}
    (describes : Describes types index definition signature) :
    signature.events definition = TypedName.events definition.parameters ++
      TypedName.events definition.returns ++ Event.inBlock definition.events := by
  rw [Signature.events, describes.length_parameters, describes.length_results, List.take_length,
    List.take_length]

/-- The slots of a function are those of its variables, in the order of their declarations. -/
theorem Origin.names_locals {types : TypeNames} {index : Nat}
    (origin : Origin context last definition function)
    (describes : Describes types index definition origin.signature) :
    function.locals.map Ir.LocalSlot.name = definition.variables := by
  rw [origin.function_eq, State.locals_returned, origin.run.trace.locals, describes.events_eq,
    Event.names_append, Event.names_append, Event.names_typedNames, Event.names_typedNames,
    Event.names_inBlock]
  rfl

theorem Compiled.Entry.handsOver {dialect : Dialect} {types : TypeNames} {program : Block}
    {module : Ir.Module} {compiled : Compiled dialect types program module} {index : Nat}
    (entry : compiled.Entry index)
    (distinct : (compiled.definitions.map Definition.name).Nodup) :
    HandsOver dialect module entry.definition entry.function := by
  have bounded (id : Ir.FunctionId) (count : Nat) :
      module.Returns id count → count - 1 ≤ module.globals.length := compiled.returns_le distinct
  have describes := entry.describes
  rw [← entry.origin_signature distinct] at describes
  have resultCount := entry.returns distinct
  obtain ⟨exit, block, found, returns, inside, codes⟩ := entry.origin.codes
  obtain ⟨parts, parted⟩ := entry.origin.parted
  have known : Parted module.Returns
      (fun name id => module.callee? dialect name = some (.function id)) entry.definition.deliveries
      entry.origin.finish.draft.function.valueSupply entry.origin.finish.draft.function.codes
      parts := by
    rw [Definition.deliveries, ← describes.events_eq]
    refine parted.mono (fun _ _ => compiled.returns_of_signature distinct) ?_
    rintro name id ⟨signature, resolved, rfl⟩
    exact compiled.callee?_of_link? (Context.link?_of_function resolved)
  constructor
  case resultCount => rw [resultCount, entry.describes.length_results]
  case names => exact entry.origin.names_locals describes
  case exit =>
    exact ⟨exit, block, _, entry.origin.returns, _, parts, found, returns,
      entry.origin.returnVariables describes, codes, known⟩
  case declared =>
    intro instruction member slot named
    rw [Ir.Function.instructions_eq, codes] at member
    rcases List.mem_append.mp ((perm_flatten_modify inside _).mem_iff.mp member) with member | member
    · exact known.index_lt bounded member named
    · have bound := index_lt_of_returnCode member named
      rw [entry.length_returns distinct] at bound
      exact bound.trans_le (bounded ⟨index⟩ _ ⟨entry.function, entry.isFunction, resultCount⟩)

end Lowering

/-- Calls of several values and their callees agree on the spill slots, and the module has exactly
as many of them as its functions need. -/
theorem Block.spillProtocol_of_toModule {dialect : Dialect} {types : Lowering.TypeNames}
    {name : String} {program : Block} {definitions : List Definition} {module : Ir.Module}
    (areDefinitions : program.definitions = .ok definitions)
    (distinct : (definitions.map Definition.name).Nodup)
    (lowered : program.toModule dialect types name = .ok module) :
    module.globals.length =
        (module.functions.map fun function => function.resultCount - 1).foldr max 0 ∧
      List.Forall₂ (Lowering.HandsOver dialect module) definitions module.functions := by
  obtain ⟨compiled⟩ := Lowering.toModule_inv lowered
  obtain rfl : compiled.definitions = definitions :=
    Except.ok.inj (compiled.areDefinitions.symm.trans areDefinitions)
  exact ⟨compiled.length_globals distinct,
    compiled.forall₂_of_entries fun entry => entry.handsOver distinct⟩

/-- Two functions that call each other and hand over several values, one of them within an
argument. Results go to variables in another order than theirs, and to one that hides another. -/
def mutualResults : Block :=
  [.definition "f" [⟨"a", ""⟩] [⟨"r", ""⟩, ⟨"s", "u8"⟩, ⟨"t", ""⟩]
    [.conditional (.identifier "a")
      [.declaration [⟨"x", ""⟩, ⟨"r", ""⟩] (some (.call "g" [.identifier "a"])),
        .assignment ["t", "s", "r"] (.call "f" [.call "h" [.identifier "x"]])],
      .assignment ["t", "r"] (.call "g" [.identifier "a"])],
    .definition "g" [⟨"b", ""⟩] [⟨"u", ""⟩, ⟨"v", ""⟩]
      [.declaration [⟨"x", ""⟩, ⟨"y", "u8"⟩, ⟨"z", ""⟩] (some (.call "f" [.identifier "b"])),
        .expression (.call "f" [.identifier "x"])],
    .definition "h" [⟨"c", ""⟩] [⟨"w", ""⟩]
      [.assignment ["w"] (.identifier "c")]]

theorem Block.spillProtocol_of_toModule_mutualResults :
    ∃ module, mutualResults.definitions = .ok mutualResults.functions ∧
      (mutualResults.functions.map Definition.name).Nodup ∧
      mutualResults.toModule (.empty .strict) .standard "m" = .ok module ∧
      mutualResults.functions.map Definition.deliveries =
        [[⟨"g", [some 4, some 5]⟩, ⟨"f", [some 3, some 2, some 5]⟩, ⟨"g", [some 3, some 1]⟩],
          [⟨"f", [some 3, some 4, some 5]⟩], []] ∧
      module.globals.length =
        (module.functions.map fun function => function.resultCount - 1).foldr max 0 ∧
      List.Forall₂ (Lowering.HandsOver (.empty .strict) module) mutualResults.functions
        module.functions := by
  have isOk : (mutualResults.toModule (.empty .strict) .standard "m").isOk = true := by
    decide +kernel
  have areDefinitions : mutualResults.definitions = .ok mutualResults.functions := rfl
  have distinct : (mutualResults.functions.map Definition.name).Nodup := by decide
  obtain ⟨module, lowered⟩ := Lowering.exists_of_isOk isOk
  exact ⟨module, areDefinitions, distinct, lowered, by decide,
    Block.spillProtocol_of_toModule areDefinitions distinct lowered⟩

end YulLowering
