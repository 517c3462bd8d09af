import YulLowering.Proofs.Linking.Programs
import YulLowering.Proofs.Listing.Texts
import YulLowering.Proofs.SlotDiscipline

/-!
# What a listing does not show

A listing leaves out what can be told from the rest of it if the module is regular: the name of a callee tells
which function it is or which effects the builtin has, the reservations in the entry block tell the local
slots, and a result type tells whether there is a result.
-/

namespace YulLowering.Ir

/-- Items that can be told from what is shown of them, in one place or in another. -/
theorem eq_of_map_eq {α β : Type} {shown otherShown : α → β} {items others : List α}
    (told : ∀ item ∈ items, ∀ other ∈ others, shown item = otherShown other → item = other)
    (same : items.map shown = others.map otherShown) : items = others := by
  induction items generalizing others with
  | nil => exact (List.map_eq_nil_iff.mp same.symm).symm
  | cons item items ih =>
      cases others with
      | nil => cases same
      | cons other others =>
          obtain ⟨first, rest⟩ := List.cons_eq_cons.mp same
          rw [told item List.mem_cons_self other List.mem_cons_self first,
            ih (fun item isItem other isOther => told item (List.mem_cons_of_mem _ isItem) other
              (List.mem_cons_of_mem _ isOther)) rest]

/-! ## Regular modules -/

/-- A builtin has the effects that the dialect says, and a function has not the name of a builtin. -/
def Callee.Known (dialect : Dialect) (module : Module) : Callee → Prop
  | builtin name effects => ∃ builtin, dialect.lookup name = some builtin ∧ effects = builtin.effects
  | function id => ∃ function, module.function? id = some function ∧ dialect.lookup function.name = none

/-- A function of which enough is shown. -/
structure Function.Regular (dialect : Dialect) (module : Module) (function : Function) : Prop where
  entry : function.entry = ⟨0⟩
  supply : function.valueSupply = (function.parameters ++ function.results).length
  discipline : function.SlotDiscipline
  resultCount : function.resultType = .void ↔ function.resultCount = 0
  callees : ∀ callee ∈ function.callees, callee.Known dialect module

/-- A builtin with the effects that the dialect says, and with one result at most. -/
structure External.Regular (dialect : Dialect) (external : External) : Prop where
  effects : ∃ builtin, dialect.lookup external.name = some builtin ∧ external.effects = builtin.effects
  few : external.results.length ≤ 1
  valued : ∀ type ∈ external.results, type ≠ .void

/-- A module of which enough is shown. -/
structure Module.Regular (dialect : Dialect) (module : Module) : Prop where
  distinct : (module.functions.map Function.name).Nodup
  functions : ∀ function ∈ module.functions, function.Regular dialect module
  externals : ∀ external ∈ module.externals, external.Regular dialect

/-! ## Instructions -/

/-- In two modules the functions of one name have one number. -/
def Module.SameNumbers (module other : Module) : Prop :=
  ∀ id otherId function otherFunction, module.function? id = some function →
    other.function? otherId = some otherFunction → function.name = otherFunction.name → id = otherId

theorem Module.sameNumbers_of_names_eq {module other : Module}
    (distinct : (module.functions.map Function.name).Nodup)
    (same : module.functions.map Function.name = other.functions.map Function.name) :
    module.SameNumbers other := by
  intro id otherId function otherFunction found otherFound sameName
  have name : (module.functions.map Function.name)[id.index]? = some function.name := by
    rw [List.getElem?_map, show module.functions[id.index]? = some function from found]
    rfl
  have otherName : (module.functions.map Function.name)[otherId.index]? = some function.name := by
    rw [same, List.getElem?_map, show other.functions[otherId.index]? = some otherFunction from otherFound,
      sameName]
    rfl
  obtain ⟨bound, -⟩ := List.getElem?_eq_some_iff.mp name
  exact congrArg FunctionId.mk ((List.getElem?_inj bound distinct).mp (name.trans otherName.symm))

section

variable {dialect : Dialect} {module other : Module}

/-- A function that is called is shown by its name. -/
theorem Callee.text_function {id : FunctionId} {function : Function}
    (isFunction : module.function? id = some function) :
    (Callee.function id).text module.functionName? = function.name := by
  simp [text, Module.functionName?, isFunction]

/-- The name of a callee tells what it is. -/
theorem Callee.eq_of_text_eq (numbers : module.SameNumbers other) {callee otherCallee : Callee}
    (known : callee.Known dialect module) (otherKnown : otherCallee.Known dialect other)
    (same : callee.text module.functionName? = otherCallee.text other.functionName?) :
    callee = otherCallee := by
  cases callee with
  | builtin name effects =>
      obtain ⟨builtin, found, isEffects⟩ := known
      cases otherCallee with
      | builtin otherName otherEffects =>
          obtain ⟨otherBuiltin, otherFound, areEffects⟩ := otherKnown
          obtain rfl : name = otherName := same
          obtain rfl := Option.some.inj (found.symm.trans otherFound)
          rw [isEffects, areEffects]
      | function otherId =>
          obtain ⟨function, isFunction, noBuiltin⟩ := otherKnown
          rw [text_function isFunction] at same
          rw [← show name = function.name from same, found] at noBuiltin
          cases noBuiltin
  | function id =>
      obtain ⟨function, isFunction, noBuiltin⟩ := known
      rw [text_function isFunction] at same
      cases otherCallee with
      | builtin otherName otherEffects =>
          obtain ⟨builtin, found, -⟩ := otherKnown
          rw [show function.name = otherName from same, found] at noBuiltin
          cases noBuiltin
      | function otherId =>
          obtain ⟨otherFunction, isOther, -⟩ := otherKnown
          rw [text_function isOther] at same
          rw [numbers id otherId function otherFunction isFunction isOther same]

theorem Function.mem_callees {function : Function} {instruction : Instruction} {callee : Callee}
    (member : instruction ∈ function.instructions) (calls : instruction.callee? = some callee) :
    callee ∈ function.callees :=
  List.mem_filterMap.mpr ⟨instruction, member, calls⟩

/-- The line of an instruction tells which one it is. -/
theorem Instruction.eq_of_line_eq (numbers : module.SameNumbers other) {function otherFunction : Function}
    {instruction otherInstruction : Instruction}
    (known : ∀ callee ∈ instruction.callee?, callee.Known dialect module)
    (otherKnown : ∀ callee ∈ otherInstruction.callee?, callee.Known dialect other)
    (fits : instruction.Fits function.locals) (otherFits : otherInstruction.Fits otherFunction.locals)
    (same : instruction.line module.functionName? function =
      otherInstruction.line other.functionName? otherFunction) :
    instruction = otherInstruction := by
  have callee {callee otherCallee : Callee} (calls : instruction.callee? = some callee)
      (otherCalls : otherInstruction.callee? = some otherCallee)
      (sameText : callee.text module.functionName? = otherCallee.text other.functionName?) :
      callee = otherCallee :=
    Callee.eq_of_text_eq numbers (known callee calls) (otherKnown otherCallee otherCalls) sameText
  rcases instruction with _ | _ | _ | _ | ⟨_ | _, _, _⟩ | _ <;>
    rcases otherInstruction with _ | _ | _ | _ | ⟨_ | _, _, _⟩ | _ <;>
    simp only [line, reduceCtorEq, Listing.Line.const.injEq, Listing.Line.reserve.injEq,
      Listing.Line.load.injEq, Listing.Line.store.injEq, Listing.Line.call.injEq,
      Listing.Line.perform.injEq, Listing.Line.testNonZero.injEq] at same
  case const.const | load.load | store.store => rw [same.1, same.2]
  case reserve.reserve => rw [same.1, same.2.1]
  case call.none.call.none => rw [callee rfl rfl same.1, same.2]
  case call.some.call.some => rw [same.1, callee rfl rfl same.2.1, same.2.2]
  case testNonZero.testNonZero =>
    rw [same.2, Value.eq_iff.mpr ⟨fits.1.trans otherFits.1.symm, same.1⟩]

end

/-! ## Slots -/

/-- The slot that is reserved in a line. -/
def Listing.Line.local? : Listing.Line → Option LocalSlot
  | reserve slot type remark => some ⟨slot, remark, type⟩
  | const _ _ | load _ _ | store _ _ | call _ _ _ | perform _ _ | testNonZero _ _ => none

/-- The slots that are reserved in a block. -/
def Listing.Block.locals (block : Listing.Block) : List LocalSlot :=
  block.lines.filterMap Line.local?

theorem Instruction.local?_line (nameOf : FunctionId → Option String) (function : Function)
    {instruction : Instruction} (plain : instruction.isReservation = false) :
    (instruction.line nameOf function).local? = none := by
  rcases instruction with _ | _ | _ | _ | ⟨_ | _, _, _⟩ | _ <;> first | rfl | cases plain

/-- The lines of the entry block tell the slots of the function. -/
theorem BasicBlock.locals_listing (nameOf : FunctionId → Option String) {function : Function}
    {block : BasicBlock} (numbered : function.Numbered)
    (reservations : block.reservations = function.reservations) :
    (block.listing nameOf function).locals = function.locals := by
  have onlyReservations : block.instructions.filterMap (fun instruction =>
        (instruction.line nameOf function).local?) =
      block.reservations.filterMap fun instruction => (instruction.line nameOf function).local? := by
    rw [BasicBlock.reservations, List.filterMap_filter]
    apply List.filterMap_congr
    intro instruction _
    cases isReservation : instruction.isReservation with
    | true => rfl
    | false => exact Instruction.local?_line nameOf function isReservation
  have told : ∀ slot ∈ function.locals,
      ((Instruction.reserve slot.id slot.type).line nameOf function).local? = some slot := by
    intro slot member
    obtain ⟨index, found⟩ := List.mem_iff_getElem?.mp member
    have isIndex := numbered index slot found
    have isLocal : function.local? slot.id = some slot := by
      rw [Function.local?, isIndex, found]
    simp [Instruction.line, Listing.Line.local?, Function.remark, isLocal]
  calc (block.listing nameOf function).locals
      = block.instructions.filterMap fun instruction => (instruction.line nameOf function).local? :=
        List.filterMap_map
    _ = function.locals.filterMap fun slot =>
          ((Instruction.reserve slot.id slot.type).line nameOf function).local? := by
        rw [onlyReservations, reservations, Function.reservations, List.filterMap_map]
        rfl
    _ = function.locals.filterMap some := List.filterMap_congr told
    _ = function.locals := List.filterMap_some

/-! ## Functions -/

section

variable {dialect : Dialect} {module other : Module} {function otherFunction : Function}

theorem Function.Regular.known (regular : function.Regular dialect module) {block : BasicBlock}
    (isBlock : block ∈ function.blocks) {instruction : Instruction}
    (member : instruction ∈ block.instructions) :
    (∀ callee ∈ instruction.callee?, callee.Known dialect module) ∧
      instruction.Fits function.locals := by
  obtain ⟨index, found⟩ := List.mem_iff_getElem?.mp isBlock
  refine ⟨fun callee calls => regular.callees callee ?_,
    (regular.discipline.blocks ⟨index⟩ block found).instructions instruction member⟩
  exact mem_callees (List.mem_flatMap.mpr ⟨block, isBlock, member⟩) calls

/-- The lines of a block tell what is in it. -/
theorem BasicBlock.eq_of_listing_eq (numbers : module.SameNumbers other)
    (regular : function.Regular dialect module) (otherRegular : otherFunction.Regular dialect other)
    {block otherBlock : BasicBlock} (isBlock : block ∈ function.blocks)
    (isOther : otherBlock ∈ otherFunction.blocks)
    (same : block.listing module.functionName? function =
      otherBlock.listing other.functionName? otherFunction) : block = otherBlock := by
  obtain ⟨id, label, lines, terminator⟩ := Listing.Block.mk.injEq .. ▸ same
  have instructions : block.instructions = otherBlock.instructions := by
    refine eq_of_map_eq (fun instruction member otherInstruction otherMember sameLine => ?_) lines
    obtain ⟨known, fits⟩ := regular.known isBlock member
    obtain ⟨otherKnown, otherFits⟩ := otherRegular.known isOther otherMember
    exact Instruction.eq_of_line_eq numbers known otherKnown fits otherFits sameLine
  cases block
  cases otherBlock
  simp_all

/-- The entry block tells the slots of a function. -/
theorem Function.Regular.locals_listing (regular : function.Regular dialect module)
    (nameOf : FunctionId → Option String) :
    (function.listing nameOf).blocks.head?.map Listing.Block.locals = some function.locals := by
  obtain ⟨block, isEntry⟩ := Option.isSome_iff_exists.mp regular.discipline.entry
  have reservations := (regular.discipline.blocks function.entry block isEntry).reservations
  rw [if_pos rfl] at reservations
  have found : function.blocks.head? = some block := by
    rw [List.head?_eq_getElem?]
    rw [regular.entry] at isEntry
    exact isEntry
  simp [listing, found, BasicBlock.locals_listing nameOf regular.discipline.numbered reservations]

/-- Whether there is a result, and whether there are several, tells how many there are. -/
theorem Function.Regular.resultCount_eq (regular : function.Regular dialect module)
    (otherRegular : otherFunction.Regular dialect other)
    (sameType : function.resultType = otherFunction.resultType)
    (several : (if function.resultCount > 1 then some function.resultCount else none) =
      if otherFunction.resultCount > 1 then some otherFunction.resultCount else none) :
    function.resultCount = otherFunction.resultCount := by
  have none_ : function.resultCount = 0 ↔ otherFunction.resultCount = 0 := by
    rw [← regular.resultCount, ← otherRegular.resultCount, sameType]
  split at several <;> split at several <;> simp at several <;> omega

/-- The lines of a function tell all of it. -/
theorem Function.eq_of_listing_eq (numbers : module.SameNumbers other)
    (regular : function.Regular dialect module) (otherRegular : otherFunction.Regular dialect other)
    (same : function.listing module.functionName? = otherFunction.listing other.functionName?) :
    function = otherFunction := by
  have locals : function.locals = otherFunction.locals := by
    have slots := regular.locals_listing module.functionName?
    rw [same, otherRegular.locals_listing other.functionName?] at slots
    exact (Option.some.inj slots).symm
  obtain ⟨name, parameters, resultType, several, blocks⟩ := Listing.Function.mk.injEq .. ▸ same
  have resultCount := regular.resultCount_eq otherRegular resultType several
  have areBlocks : function.blocks = otherFunction.blocks :=
    eq_of_map_eq (fun block isBlock otherBlock isOther =>
      BasicBlock.eq_of_listing_eq numbers regular otherRegular isBlock isOther) blocks
  -- Values are numbered without gaps, so the number of the next one is the number of those in sight.
  have supply : function.valueSupply = otherFunction.valueSupply := by
    rw [regular.supply, otherRegular.supply, results, results, parameters, areBlocks]
  have entry := regular.entry.trans otherRegular.entry.symm
  cases function
  cases otherFunction
  simp_all

end

/-! ## Modules -/

/-- The line of a builtin tells all of it. -/
theorem External.eq_of_listing_eq {dialect : Dialect} {external other : External}
    (regular : external.Regular dialect) (otherRegular : other.Regular dialect)
    (same : external.listing = other.listing) : external = other := by
  obtain ⟨⟨builtin, found, effects⟩, few, valued⟩ := regular
  obtain ⟨⟨otherBuiltin, otherFound, otherEffects⟩, otherFew, otherValued⟩ := otherRegular
  obtain ⟨name, parameters, result, -⟩ := Listing.External.mk.injEq .. ▸ same
  have sameEffects : external.effects = other.effects := by
    rw [name, otherFound] at found
    rw [effects, otherEffects, Option.some.inj found]
  have results : external.results = other.results := by
    rcases isResult : external.results with _ | ⟨type, _ | _⟩ <;>
      rcases isOther : other.results with _ | ⟨otherType, _ | _⟩ <;> simp_all
  cases external
  cases other
  simp_all

/-- What is shown of a regular module tells all of it. -/
theorem Module.eq_of_listing_eq {dialect : Dialect} {module other : Module}
    (regular : module.Regular dialect) (otherRegular : other.Regular dialect)
    (same : module.listing = other.listing) : module = other := by
  obtain ⟨name, globals, externals, functions⟩ := Listing.mk.injEq .. ▸ same
  have names : module.functions.map Function.name = other.functions.map Function.name := by
    simpa [Function.listing, Function.comp_def] using congrArg (List.map Listing.Function.name) functions
  have numbers := sameNumbers_of_names_eq regular.distinct names
  have areFunctions : module.functions = other.functions :=
    eq_of_map_eq (fun function isFunction otherFunction isOther =>
      Function.eq_of_listing_eq numbers (regular.functions function isFunction)
        (otherRegular.functions otherFunction isOther)) functions
  have areExternals : module.externals = other.externals :=
    eq_of_map_eq (fun external isExternal otherExternal isOther =>
      External.eq_of_listing_eq (regular.externals external isExternal)
        (otherRegular.externals otherExternal isOther)) externals
  cases module
  cases other
  simp_all [listing]

end YulLowering.Ir
