import YulLowering.Proofs.Programs

/-!
# Slots and widths

Every local slot of a lowered function is reserved once, in the entry block and in the order of the slots,
however late it has been declared, and code that uses a slot comes after its reservation. What is read from
a slot has the slot's type, conditions have the type of conditions, and constants fit the types that they
are written at. None of this depends on how the source program is typed.
-/

namespace YulLowering

namespace Ir

/-! ## What code has to keep to -/

namespace Instruction

/-- Whether the instruction reserves a slot. -/
def isReservation : Instruction → Bool
  | reserve _ _ => true
  | const _ _ | load _ _ | store _ _ | call _ _ _ | testNonZero _ _ => false

/-- The local slot that the instruction reads or writes. -/
def accessed? : Instruction → Option LocalId
  | load _ (.ofLocal slot) | store (.ofLocal slot) _ => some slot
  | const _ _ | reserve _ _ | load _ (.ofGlobal _) | store (.ofGlobal _) _ | call _ _ _
  | testNonZero _ _ => none

/-- Slots are there, loads have the types of their slots, tests make conditions out of what is none, and
constants fit their types. -/
def Fits (locals : List LocalSlot) : Instruction → Prop
  | const dest constant => dest.type.Holds constant
  | load dest (.ofLocal slot) =>
    ∃ declared, locals[slot.index]? = some declared ∧ dest.type = declared.type
  | store (.ofLocal slot) _ => slot.index < locals.length
  | testNonZero dest operand => dest.type = .bool ∧ operand.type ≠ .bool
  | reserve _ _ | load _ (.ofGlobal _) | store (.ofGlobal _) _ | call _ _ _ => True

/-- More slots do no harm. -/
theorem Fits.mono {locals more : List LocalSlot} {instruction : Instruction}
    (fits : instruction.Fits locals) (grow : locals <+: more) : instruction.Fits more := by
  cases instruction with
  | const | testNonZero => exact fits
  | reserve | call => trivial
  | load dest slot =>
      cases slot with
      | ofGlobal => trivial
      | ofLocal slot =>
          obtain ⟨declared, found, typed⟩ := fits
          exact ⟨declared, getElem?_of_prefix grow found, typed⟩
  | store slot value =>
      cases slot with
      | ofGlobal => trivial
      | ofLocal slot => exact Nat.lt_of_lt_of_le fits grow.length_le

/-- A slot that is used is there. -/
theorem Fits.accessed_lt {locals : List LocalSlot} {instruction : Instruction} {slot : LocalId}
    (fits : instruction.Fits locals) (accessed : instruction.accessed? = some slot) :
    slot.index < locals.length := by
  cases instruction with
  | const | reserve | call | testNonZero => cases accessed
  | load dest place =>
      cases place with
      | ofGlobal => cases accessed
      | ofLocal =>
          cases accessed
          obtain ⟨declared, found, -⟩ := fits
          exact (List.getElem?_eq_some_iff.mp found).1
  | store place value =>
      cases place with
      | ofGlobal => cases accessed
      | ofLocal =>
          cases accessed
          exact fits

end Instruction

/-- Branches are on conditions, and the constants of a switch fit the type of its scrutinee. -/
def Terminator.Fits : Terminator → Prop
  | branch condition _ _ => condition.type = .bool
  | switch scrutinee cases _ => ∀ arm ∈ cases, scrutinee.type.Holds arm.1
  | jump _ | ret _ | unreachable => True

/-- The reservations in a block, in order. -/
def BasicBlock.reservations (block : BasicBlock) : List Instruction :=
  block.instructions.filter Instruction.isReservation

/-- In code each slot is reserved before it is used. -/
def ReservedFirst (code : List Instruction) : Prop :=
  ∀ before instruction after, code = before ++ instruction :: after →
    ∀ slot, instruction.accessed? = some slot → ∃ type, .reserve slot type ∈ before

theorem ReservedFirst.append {code : List Instruction} (first : ReservedFirst code)
    {instruction : Instruction}
    (reserved : ∀ slot, instruction.accessed? = some slot → ∃ type, .reserve slot type ∈ code) :
    ReservedFirst (code ++ [instruction]) := by
  intro before other after equal slot accessed
  rcases List.eq_nil_or_concat after with rfl | ⟨rest, last, rfl⟩
  · obtain ⟨rfl, same⟩ := List.append_inj' equal rfl
    obtain rfl := List.singleton_inj.mp same
    exact reserved slot accessed
  · rw [List.concat_eq_append, ← List.cons_append, ← List.append_assoc] at equal
    obtain ⟨rfl, -⟩ := List.append_inj' equal rfl
    exact first before other rest rfl slot accessed

namespace Function

/-- The reservations of all slots, in the order of the slots. -/
def reservations (function : Function) : List Instruction :=
  function.locals.map fun slot => .reserve slot.id slot.type

/-- A block that keeps to slots and widths. The entry block holds all reservations, and other blocks hold
none. -/
structure Disciplines (function : Function) (id : BlockId) (block : BasicBlock) : Prop where
  reservations : block.reservations = if id = function.entry then function.reservations else []
  first : id = function.entry → ReservedFirst block.instructions
  instructions : ∀ instruction ∈ block.instructions, instruction.Fits function.locals
  terminator : block.terminator.Fits

/-- A function all of whose blocks keep to slots and widths. -/
structure SlotDiscipline (function : Function) : Prop where
  numbered : function.Numbered
  entry : (function.block? function.entry).isSome
  blocks : ∀ id block, function.block? id = some block → function.Disciplines id block

/-- Where all slots have been reserved, each of them has been. -/
theorem mem_of_reservations_eq {function : Function} (numbered : function.Numbered)
    {block : BasicBlock} (reservations : block.reservations = function.reservations)
    {slot : LocalId} (bound : slot.index < function.locals.length) :
    ∃ type, .reserve slot type ∈ block.instructions := by
  have named := numbered slot.index _ (List.getElem?_eq_getElem bound)
  refine ⟨function.locals[slot.index].type, ?_⟩
  have member : .reserve slot function.locals[slot.index].type ∈ block.reservations := by
    rw [reservations, Function.reservations, List.mem_map]
    exact ⟨function.locals[slot.index], List.getElem_mem bound, by rw [named]⟩
  exact List.mem_of_mem_filter member

end Function

/-! ## Edits -/

namespace Draft

variable {draft : Draft}

theorem disciplines_empty (function : Function) {id : BlockId} (inside : id ≠ function.entry)
    (label : Option String) : function.Disciplines id (.empty id label) where
  reservations := by
    rw [if_neg inside]
    rfl
  first := fun isEntry => absurd isEntry inside
  instructions := by
    intro instruction member
    cases member
  terminator := trivial

/-- An instruction that fits the slots there are may be written anywhere. -/
theorem slotDiscipline_write (discipline : draft.function.SlotDiscipline)
    {instruction : Instruction} (plain : instruction.isReservation = false)
    (fits : instruction.Fits draft.function.locals) :
    (draft.write instruction).function.SlotDiscipline where
  numbered := discipline.numbered.of_locals_eq rfl
  entry := by
    rw [entry_write, block?_write]
    split <;> simp [discipline.entry]
  blocks := by
    intro id block found
    rw [block?_write] at found
    split at found
    · obtain ⟨before, foundBefore, rfl⟩ := Option.map_eq_some_iff.mp found
      obtain ⟨reservations, first, instructions, terminator⟩ := discipline.blocks id before foundBefore
      constructor
      case reservations =>
        show (before.append instruction).reservations =
          if id = draft.function.entry then draft.function.reservations else []
        rw [← reservations]
        simp [BasicBlock.reservations, BasicBlock.append, plain]
      case first =>
        intro isEntry
        refine (first isEntry).append ?_
        intro slot accessed
        rw [if_pos (show id = draft.function.entry from isEntry)] at reservations
        exact Function.mem_of_reservations_eq discipline.numbered reservations
          (fits.accessed_lt accessed)
      case instructions =>
        intro other member
        rcases List.mem_append.mp member with old | new
        · exact instructions other old
        · obtain rfl := List.mem_singleton.mp new
          exact fits
      case terminator => exact terminator
    · obtain ⟨reservations, first, instructions, terminator⟩ := discipline.blocks id block found
      exact ⟨reservations, first, instructions, terminator⟩

theorem slotDiscipline_close (discipline : draft.function.SlotDiscipline)
    {terminator : Terminator} (fits : terminator.Fits) :
    (draft.close terminator).function.SlotDiscipline where
  numbered := discipline.numbered.of_locals_eq rfl
  entry := by
    rw [entry_close, isSome_block?_close]
    exact discipline.entry
  blocks := by
    intro id block found
    rw [block?_close] at found
    split at found
    · obtain ⟨before, foundBefore, rfl⟩ := Option.map_eq_some_iff.mp found
      obtain ⟨reservations, first, instructions, -⟩ := discipline.blocks id before foundBefore
      exact ⟨reservations, first, instructions, fits⟩
    · obtain ⟨reservations, first, instructions, terminator⟩ := discipline.blocks id block found
      exact ⟨reservations, first, instructions, terminator⟩

theorem slotDiscipline_newBlock (discipline : draft.function.SlotDiscipline) (label : String) :
    (draft.newBlock label).2.function.SlotDiscipline := by
  have old : draft.function.entry ≠ draft.nextBlock := by
    intro same
    have present := discipline.entry
    rw [same, block?_nextBlock] at present
    cases present
  constructor
  case numbered => exact discipline.numbered.of_locals_eq rfl
  case entry =>
    rw [entry_newBlock, block?_newBlock, if_neg old]
    exact discipline.entry
  case blocks =>
    intro id block found
    rw [block?_newBlock] at found
    split at found
    · next isNew =>
      cases found
      exact disciplines_empty _ (by rw [isNew]; exact old.symm) _
    · obtain ⟨reservations, first, instructions, terminator⟩ := discipline.blocks id block found
      exact ⟨reservations, first, instructions, terminator⟩

/-- A new slot is reserved behind all others. -/
theorem slotDiscipline_reserve (discipline : draft.function.SlotDiscipline) (name : String)
    (type : ValueType) : (draft.reserve name type).2.function.SlotDiscipline := by
  have grow : draft.function.locals <+: (draft.reserve name type).2.function.locals :=
    List.prefix_append _ _
  constructor
  case numbered => exact discipline.numbered.reserve name type
  case entry =>
    rw [entry_reserve, block?_reserve]
    split <;> simp [discipline.entry]
  case blocks =>
    intro id block found
    rw [block?_reserve] at found
    split at found
    · next isEntry =>
      obtain ⟨before, foundBefore, rfl⟩ := Option.map_eq_some_iff.mp found
      obtain ⟨reservations, first, instructions, terminator⟩ := discipline.blocks id before foundBefore
      constructor
      case reservations =>
        rw [if_pos isEntry.symm] at reservations
        rw [if_pos (show id = (draft.reserve name type).2.function.entry from isEntry.symm)]
        rw [Function.reservations, locals_reserve, List.map_append, ← Function.reservations,
          ← reservations]
        simp [BasicBlock.reservations, BasicBlock.append, Instruction.isReservation]
      case first =>
        intro isEntry
        refine (first isEntry).append ?_
        intro slot accessed
        cases accessed
      case instructions =>
        intro other member
        rcases List.mem_append.mp member with old | new
        · exact (instructions other old).mono grow
        · obtain rfl := List.mem_singleton.mp new
          trivial
      case terminator => exact terminator
    · next inside =>
      obtain ⟨reservations, first, instructions, terminator⟩ := discipline.blocks id block found
      constructor
      case reservations =>
        rw [if_neg (Ne.symm inside)] at reservations
        rw [if_neg (show id ≠ (draft.reserve name type).2.function.entry from Ne.symm inside)]
        exact reservations
      case first => exact first
      case instructions => exact fun other member => (instructions other member).mono grow
      case terminator => exact terminator

end Draft

end Ir

namespace Lowering

variable {context : Context} {outer : List Ir.BlockId}

theorem slotDiscipline_writeAll {draft : Ir.Draft} (discipline : draft.function.SlotDiscipline)
    {code : List Ir.Instruction}
    (fit : ∀ instruction ∈ code, instruction.isReservation = false ∧
      instruction.Fits draft.function.locals) :
    (writeAll draft code).function.SlotDiscipline := by
  induction code generalizing draft with
  | nil => exact discipline
  | cons instruction code ih =>
      obtain ⟨⟨plain, fits⟩, others⟩ := List.forall_mem_cons.mp fit
      exact ih (Ir.Draft.slotDiscipline_write discipline plain fits) others

/-! ## Variables and their slots -/

/-- A variable has a slot of its type. -/
def Binding.DeclaredIn (binding : Binding) (function : Ir.Function) : Prop :=
  function.local? binding.slot = some ⟨binding.slot, binding.name, binding.type⟩

namespace Binding.DeclaredIn

variable {binding : Binding} {function later : Ir.Function}

theorem mono (declared : binding.DeclaredIn function) (grow : function.locals <+: later.locals) :
    binding.DeclaredIn later :=
  Ir.getElem?_of_prefix grow declared

theorem load (declared : binding.DeclaredIn function) {dest : Ir.Value}
    (typed : dest.type = binding.type) :
    (Ir.Instruction.load dest (.ofLocal binding.slot)).Fits function.locals :=
  ⟨_, declared, typed⟩

theorem store (declared : binding.DeclaredIn function) (value : Ir.Value) :
    (Ir.Instruction.store (.ofLocal binding.slot) value).Fits function.locals :=
  (List.getElem?_eq_some_iff.mp declared).1

end Binding.DeclaredIn

/-- Copies between variables and shared slots fit if the variables have their slots. -/
theorem fits_transferCode {locals : List Ir.LocalSlot} {transfers : List Transfer}
    (fit : ∀ transfer ∈ transfers, ∀ value : Ir.Value, value.type = transfer.type →
      (Ir.Instruction.load value transfer.source).Fits locals ∧
        (Ir.Instruction.store transfer.target value).Fits locals) (supply : Nat) :
    ∀ instruction ∈ transferCode supply transfers,
      instruction.isReservation = false ∧ instruction.Fits locals := by
  intro instruction member
  obtain ⟨transfer, isTransfer, value, typed, isCopy⟩ := mem_transferCode member
  obtain ⟨loads, stores⟩ := fit transfer isTransfer value typed
  rcases isCopy with rfl | rfl
  · exact ⟨rfl, loads⟩
  · exact ⟨rfl, stores⟩

theorem fits_receiveCode {function : Ir.Function} (result : Ir.Value) (callee : Ir.Callee)
    (arguments : List Ir.Value) {first : Binding} {others : List (Binding × Ir.GlobalId)}
    (firstDeclared : first.DeclaredIn function)
    (othersDeclared : ∀ pair ∈ others, pair.1.DeclaredIn function) :
    ∀ instruction ∈ receiveCode result callee arguments first others,
      instruction.isReservation = false ∧ instruction.Fits function.locals := by
  refine List.forall_mem_cons.mpr ⟨⟨rfl, trivial⟩,
    List.forall_mem_cons.mpr ⟨⟨rfl, firstDeclared.store result⟩, fits_transferCode ?_ _⟩⟩
  intro transfer member value typed
  obtain ⟨pair, isOther, rfl⟩ := List.mem_map.mp member
  exact ⟨trivial, (othersDeclared pair isOther).store value⟩

theorem fits_returnCode {function : Ir.Function} {returns : List Binding}
    (declared : ∀ binding ∈ returns, binding.DeclaredIn function) (supply : Nat)
    (slots : List Ir.GlobalId) :
    ∀ instruction ∈ returnCode supply slots returns,
      instruction.isReservation = false ∧ instruction.Fits function.locals := by
  cases returns with
  | nil =>
      intro instruction member
      cases member
  | cons first others =>
      obtain ⟨firstDeclared, othersDeclared⟩ := List.forall_mem_cons.mp declared
      refine List.forall_mem_cons.mpr ⟨⟨rfl, firstDeclared.load rfl⟩, fits_transferCode ?_ _⟩
      intro transfer member value typed
      obtain ⟨pair, paired, rfl⟩ := List.mem_map.mp member
      exact ⟨(othersDeclared _ (List.of_mem_zip paired).1).load typed, trivial⟩

/-! ## Moves -/

/-- A state in which slots and widths have been kept to, and all visible variables have slots. -/
structure State.Disciplined (state : State) : Prop where
  slots : state.draft.function.SlotDiscipline
  scope : ∀ binding ∈ state.scope.bindings, binding.DeclaredIn state.draft.function

/-- What is written by itself fits. -/
theorem Writable.fits {state : State} {instruction : Ir.Instruction}
    (writable : Writable context state instruction) (disciplined : state.Disciplined) :
    instruction.isReservation = false ∧ instruction.Fits state.draft.function.locals := by
  cases writable with
  | const type constant fits => exact ⟨rfl, fits⟩
  | load binding inScope => exact ⟨rfl, (disciplined.scope binding inScope).load rfl⟩
  | store binding value inScope => exact ⟨rfl, (disciplined.scope binding inScope).store value⟩
  | callFunction | callBuiltin => exact ⟨rfl, trivial⟩
  | testNonZero operand other =>
      exact ⟨rfl, rfl, by simpa [Ir.ValueType.isBool] using other⟩

theorem Exits.fits {stage : Stage} {terminator : Ir.Terminator}
    (exits : Exits outer stage terminator) : terminator.Fits := by
  cases exits with
  | jump | back => trivial
  | branch _ _ _ isCondition => exact isCondition
  | switch _ _ _ fit => exact fit

/-- A variable that is declared gets a slot of its type. -/
theorem State.Disciplined.declared {state : State} (disciplined : state.Disciplined)
    (name : String) (type : Ir.ValueType) : (state.declared name type).Disciplined where
  slots := Ir.Draft.slotDiscipline_reserve disciplined.slots name type
  scope := by
    intro binding member
    rcases List.mem_append.mp member with old | new
    · exact (disciplined.scope binding old).mono (List.prefix_append _ _)
    · obtain rfl := List.mem_singleton.mp new
      show ((state.draft.function.locals ++ [_])[state.draft.function.locals.length]?) = _
      rw [List.getElem?_concat_length]
      rfl

theorem Move.disciplined {stage later : Stage} (move : Move context outer stage later)
    (disciplined : stage.state.Disciplined) : later.state.Disciplined := by
  have ⟨slots, scope⟩ := disciplined
  cases move with
  | write instruction _ _ _ writable =>
      obtain ⟨plain, fits⟩ := writable.fits disciplined
      exact ⟨Ir.Draft.slotDiscipline_write slots plain fits, scope⟩
  | receive name signature result arguments rest first others _ _ _ _ _ _ _ _ firstInScope
      inScope =>
      refine ⟨slotDiscipline_writeAll slots (fits_receiveCode _ _ _ (scope first firstInScope)
        fun pair member => scope _ (inScope pair member)), ?_⟩
      intro binding member
      refine (scope binding member).mono ?_
      exact (locals_writeAll stage.draft _).symm ▸ List.prefix_refl _
  | declare name type => exact disciplined.declared name type
  | newBlock label => exact ⟨Ir.Draft.slotDiscipline_newBlock slots label, scope⟩
  | close terminator _ _ exits => exact ⟨Ir.Draft.slotDiscipline_close slots exits.fits, scope⟩
  | leaveBlock =>
      refine ⟨slots, ?_⟩
      intro binding member
      apply scope
      change binding ∈ stage.state.scope.leave.bindings at member
      unfold Scope.leave at member
      split at member
      · exact member
      · exact List.mem_of_mem_take member
  | announce | declareBuiltin | discard | moveTo | enterBlock | enterLoop | leaveLoop =>
      exact ⟨slots, scope⟩

theorem Moves.disciplined {stage later : Stage} (moves : Moves context outer stage later)
    (disciplined : stage.state.Disciplined) : later.state.Disciplined :=
  moves.keeps Move.disciplined disciplined

/-! ## Whole functions -/

/-- At first there are neither slots nor instructions. -/
theorem Progress.disciplined_begin (progress : Progress) (name : String) (signature : Signature) :
    (progress.begin name signature).Disciplined := by
  constructor
  case scope =>
    intro binding member
    cases member
  case slots =>
    constructor
    case numbered =>
      intro index slot found
      cases found
    case entry => rfl
    case blocks =>
      intro id block found
      obtain ⟨_ | index⟩ := id
      · cases found
        refine ⟨rfl, ?_, ?_, trivial⟩
        · intro _ before instruction after equal
          cases before <;> cases equal
        · intro instruction member
          cases member
      · cases found

theorem State.Disciplined.bound {state : State} (disciplined : state.Disciplined)
    (names : List TypedName) (values : List Ir.Value) : (state.bound names values).Disciplined := by
  obtain ⟨-, bound⟩ := State.bound_keeps (motive := fun _ state => state.Disciplined)
    (fun {state value _} name disciplined => by
      have declared := disciplined.declared name value.type
      have own : Binding.DeclaredIn ⟨name, state.draft.nextLocal, value.type⟩
          (state.declared name value.type).draft.function :=
        declared.scope _ (List.mem_append_right _ List.mem_cons_self)
      exact ⟨Ir.Draft.slotDiscipline_write declared.slots rfl (own.store value), declared.scope⟩)
    names values disciplined
  exact bound

theorem Origin.slotDiscipline {last : Progress} {definition : Definition}
    {function : Ir.Function} (origin : Origin context last definition function) :
    function.SlotDiscipline := by
  have started : origin.start.Disciplined :=
    (origin.before.disciplined_begin definition.name origin.signature).bound _ _
  have prepared := origin.run.prepares.disciplined started
  have finished := origin.run.performs.disciplined prepared
  have declared : ∀ binding ∈ origin.returns, binding.DeclaredIn origin.finish.draft.function := by
    intro binding member
    refine (prepared.scope binding ?_).mono origin.run.performs.grows.locals
    rw [origin.run.reserved.scope]
    exact List.mem_append_right _ member
  rw [origin.function_eq]
  exact Ir.Draft.slotDiscipline_close
    (slotDiscipline_writeAll finished.slots (fits_returnCode declared _ _)) trivial

end Lowering

/-- Every function of a lowered module keeps to its slots and to widths. -/
theorem Block.slotDiscipline_of_toModule {dialect : Dialect} {types : Lowering.TypeNames}
    {name : String} {program : Block} {module : Ir.Module}
    (lowered : program.toModule dialect types name = .ok module) :
    ∀ function ∈ module.functions, function.SlotDiscipline := by
  obtain ⟨compiled⟩ := Lowering.toModule_inv lowered
  intro function member
  obtain ⟨definition, ⟨origin⟩⟩ := compiled.origin_of_mem member
  exact origin.slotDiscipline

/-- Variables that are declared in a loop and in an arm, long after the entry block has been left, with
constants at the ends of their types. -/
def lateDeclarations : Block :=
  [.definition "f" [⟨"a", "u8"⟩, ⟨"b", "bool"⟩] [⟨"r", "u32"⟩]
    [.loop [.declaration [⟨"i", "u32"⟩] (some (.number "4294967295" "u32"))] (.identifier "b")
      [.declaration [⟨"x", ""⟩, ⟨"y", "bool"⟩] none]
      [.switch (.identifier "a")
        [⟨some (.number "0xff" ""), [.declaration [⟨"a", "bool"⟩] (some (.identifier "i"))]⟩,
          ⟨none, [.breakLoop, .declaration [⟨"z", "u8"⟩] (some (.identifier "a"))]⟩]]]]

theorem Block.slotDiscipline_of_toModule_lateDeclarations :
    ∃ module, lateDeclarations.toModule (.empty .strict) .standard "m" = .ok module ∧
      ∀ function ∈ module.functions, function.SlotDiscipline := by
  have isOk : (lateDeclarations.toModule (.empty .strict) .standard "m").isOk = true := by
    decide +kernel
  cases lowered : lateDeclarations.toModule (.empty .strict) .standard "m" with
  | error error =>
      rw [lowered] at isOk
      cases isOk
  | ok module => exact ⟨module, rfl, Block.slotDiscipline_of_toModule lowered⟩

end YulLowering
