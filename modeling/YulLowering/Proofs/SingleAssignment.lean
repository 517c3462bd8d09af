import Mathlib.Data.List.Nodup
import YulLowering.Proofs.Programs

/-!
# Single assignment

In a lowered function every value has one definition and at most one use, and the use follows the
definition in the same block. Only the copies of parameters into their slots use values that no
instruction defines. While a function is lowered, the values that have been defined and not been
used are exactly the pending ones, and all of them come from the block under the cursor.
-/

namespace YulLowering

namespace Ir

/-! ## Definitions and uses -/

/-- The values that instructions define, in order. -/
def defined (code : List Instruction) : List Value :=
  code.filterMap Instruction.dest?

/-- The values that a block uses. -/
def BasicBlock.operands (block : BasicBlock) : List Value :=
  block.instructions.flatMap Instruction.operands ++ block.terminator.operands

/-- Every value that is used in a block has been defined there before. Copied values need no
definition where they are stored. -/
structure BasicBlock.UsesOwn (block : BasicBlock) (copied : List Value) : Prop where
  instructions : ∀ before instruction after,
    block.instructions = before ++ instruction :: after → ∀ value ∈ instruction.operands,
      value ∈ defined before ∨ value ∈ copied ∧ ∃ slot, instruction = .store slot value
  terminator : ∀ value ∈ block.terminator.operands, value ∈ defined block.instructions

namespace Function

/-- The values that the instructions of a function define. -/
def results (function : Function) : List Value :=
  function.blocks.flatMap fun block => defined block.instructions

/-- The values that a function uses, as often as it does. -/
def operands (function : Function) : List Value :=
  function.blocks.flatMap BasicBlock.operands

/-- The values that may be used in a block without a definition there. -/
def copiedIn (function : Function) (id : BlockId) : List Value :=
  if id = function.entry then function.parameters else []

/-- Every value has one definition and at most one use, which follows the definition in its block.
Values are numbered without gaps. -/
structure SingleAssignment (function : Function) : Prop where
  numbered : ∃ count,
    ((function.parameters ++ function.results).map fun value => value.id.index).Perm
      (List.range count)
  once : (function.operands.map Value.id).Nodup
  uses : ∀ id block, function.block? id = some block → block.UsesOwn (function.copiedIn id)

end Function

/-- What is collected from the elements of a list grows as one element does. -/
theorem flatMap_modify_perm {α β : Type} {collect : β → List α} {change : β → β} {extra : List α}
    {items : List β} {index : Nat} {item : β} (found : items[index]? = some item)
    (grows : (collect (change item)).Perm (collect item ++ extra)) :
    ((items.modify index change).flatMap collect).Perm (items.flatMap collect ++ extra) := by
  induction items generalizing index with
  | nil => simp at found
  | cons head rest ih =>
      cases index with
      | zero =>
          obtain rfl := Option.some.inj found
          rw [List.modify_zero_cons, List.flatMap_cons, List.flatMap_cons, List.append_assoc]
          refine (grows.append_right _).trans ?_
          rw [List.append_assoc]
          exact List.perm_append_comm.append_left _
      | succ index =>
          rw [List.modify_succ_cons, List.flatMap_cons, List.flatMap_cons, List.append_assoc]
          exact (ih found).append_left _

/-! ## Edits -/

theorem BasicBlock.UsesOwn.empty (id : BlockId) (label : Option String) (copied : List Value) :
    (BasicBlock.empty id label).UsesOwn copied where
  instructions := by
    intro before instruction after equal
    cases before <;> cases equal
  terminator := by
    intro value used
    cases used

/-- An instruction may use what the block has defined so far. -/
theorem BasicBlock.UsesOwn.append {block : BasicBlock} {copied : List Value}
    (usesOwn : block.UsesOwn copied) {instruction : Instruction}
    (uses : ∀ value ∈ instruction.operands, value ∈ defined block.instructions ∨
      value ∈ copied ∧ ∃ slot, instruction = .store slot value) :
    (block.append instruction).UsesOwn copied where
  instructions := by
    intro before other after equal value used
    have equal : block.instructions ++ [instruction] = before ++ other :: after := equal
    rcases List.eq_nil_or_concat after with rfl | ⟨rest, last, rfl⟩
    · obtain ⟨rfl, same⟩ := List.append_inj' equal rfl
      obtain rfl := List.singleton_inj.mp same
      exact uses value used
    · rw [List.concat_eq_append, ← List.cons_append, ← List.append_assoc] at equal
      obtain ⟨isBlock, -⟩ := List.append_inj' equal rfl
      exact usesOwn.instructions before other rest isBlock value used
  terminator := by
    intro value used
    have known := usesOwn.terminator value used
    unfold defined at known ⊢
    rw [BasicBlock.append, List.filterMap_append]
    exact List.mem_append_left _ known

theorem BasicBlock.UsesOwn.close {block : BasicBlock} {copied : List Value}
    (usesOwn : block.UsesOwn copied) {terminator : Terminator}
    (uses : ∀ value ∈ terminator.operands, value ∈ defined block.instructions) :
    (block.close terminator).UsesOwn copied :=
  ⟨usesOwn.instructions, uses⟩

namespace Draft

variable {draft : Draft} {unused : List Value}

theorem results_write {block : BasicBlock}
    (found : draft.function.block? draft.cursor = some block) (instruction : Instruction) :
    (draft.write instruction).function.results.Perm
      (draft.function.results ++ instruction.dest?.toList) := by
  apply flatMap_modify_perm found
  rw [BasicBlock.append, defined, defined, List.filterMap_append]
  cases isDest : instruction.dest? <;> simp [isDest]

theorem operands_write {block : BasicBlock}
    (found : draft.function.block? draft.cursor = some block) (instruction : Instruction) :
    (draft.write instruction).function.operands.Perm
      (draft.function.operands ++ instruction.operands) := by
  apply flatMap_modify_perm found
  simp only [BasicBlock.operands, BasicBlock.append, List.flatMap_append, List.flatMap_singleton,
    List.append_assoc]
  exact List.perm_append_comm.append_left _

theorem results_close {block : BasicBlock}
    (found : draft.function.block? draft.cursor = some block) (terminator : Terminator) :
    (draft.close terminator).function.results.Perm (draft.function.results ++ []) :=
  flatMap_modify_perm found (by rw [List.append_nil]; rfl)

theorem operands_close (isOpen : draft.IsOpen) (terminator : Terminator) :
    (draft.close terminator).function.operands.Perm
      (draft.function.operands ++ terminator.operands) := by
  obtain ⟨block, found, unset⟩ := isOpen
  apply flatMap_modify_perm found
  have isOpen : block.terminator = .unreachable := by
    simpa [BasicBlock.isClosed] using unset
  simp [BasicBlock.operands, BasicBlock.close, isOpen, Terminator.operands]

/-- What holds of the values of a function under construction: those in `unused` have been defined
and not been used. -/
structure Assigned (draft : Draft) (unused : List Value) : Prop where
  numbered :
    ((draft.function.parameters ++ draft.function.results).map fun value => value.id.index).Perm
      (List.range draft.function.valueSupply)
  bounded : ∀ value ∈ draft.function.operands ++ unused,
    value.id.index < draft.function.valueSupply
  once : ((draft.function.operands ++ unused).map Value.id).Nodup
  uses : ∀ id block, draft.function.block? id = some block →
    block.UsesOwn (draft.function.copiedIn id)

/-- The values have been defined in the block under the cursor. -/
def Holds (draft : Draft) (values : List Value) : Prop :=
  ∀ value ∈ values, ∃ block, draft.function.block? draft.cursor = some block ∧
    value ∈ defined block.instructions

/-- Values of the block under the cursor stay there when an instruction is added. -/
theorem Holds.write {values : List Value} (holds : draft.Holds values) (isOpen : draft.IsOpen)
    {rest : List Value} (fewer : rest ⊆ values) (instruction : Instruction) :
    (draft.write instruction).Holds (instruction.dest?.toList ++ rest) := by
  obtain ⟨block, found, -⟩ := isOpen
  intro value known
  refine ⟨block.append instruction, by simp [block?_write, found], ?_⟩
  rw [BasicBlock.append, defined, List.filterMap_append]
  rcases List.mem_append.mp known with isDest | isOld
  · refine List.mem_append_right _ ?_
    cases isSome : instruction.dest? <;> simp_all
  · obtain ⟨other, foundOther, isDefined⟩ := holds value (fewer isOld)
    rw [found] at foundOther
    cases foundOther
    exact List.mem_append_left _ isDefined

/-- Values of the block under the cursor stay there when a variable is declared. -/
theorem Holds.reserve {values : List Value} (holds : draft.Holds values) (name : String)
    (type : ValueType) : (draft.reserve name type).2.Holds values := by
  intro value known
  obtain ⟨block, found, isDefined⟩ := holds value known
  rw [block?_reserve, cursor_reserve, found]
  split
  · refine ⟨block.append (.reserve draft.nextLocal type), rfl, ?_⟩
    rw [BasicBlock.append, defined, List.filterMap_append]
    exact List.mem_append_left _ isDefined
  · exact ⟨block, rfl, isDefined⟩

theorem Holds.newBlock {values : List Value} (holds : draft.Holds values) (label : String) :
    (draft.newBlock label).2.Holds values := by
  intro value known
  obtain ⟨block, found, isDefined⟩ := holds value known
  refine ⟨block, ?_, isDefined⟩
  rw [block?_newBlock, cursor_newBlock, if_neg, found]
  intro isNew
  rw [isNew] at found
  simp [nextBlock, Function.block?] at found

theorem Holds.nil (draft : Draft) : draft.Holds [] := by
  intro value known
  cases known

/-- What an instruction uses is not unused any more, and what it defines has not been used yet. -/
theorem operands_unused_write {block : BasicBlock} (found : draft.function.block? draft.cursor = some block)
    {instruction : Instruction} {unused rest : List Value}
    (used : unused.Perm (instruction.operands ++ rest)) :
    ((draft.write instruction).function.operands ++ (instruction.dest?.toList ++ rest)).Perm
      ((draft.function.operands ++ unused) ++ instruction.dest?.toList) := by
  refine ((operands_write found instruction).append_right _).trans ?_
  rw [List.append_assoc, List.append_assoc]
  refine List.Perm.append_left _ ?_
  have swapped : (instruction.operands ++ (instruction.dest?.toList ++ rest)).Perm
      (instruction.operands ++ (rest ++ instruction.dest?.toList)) :=
    List.perm_append_comm.append_left _
  rw [← List.append_assoc _ rest] at swapped
  exact swapped.trans (used.symm.append_right _)

namespace Assigned

/-- A value with the next number is none of those that there are. -/
theorem nodup_fresh (assigned : draft.Assigned unused) {dest : Option Value}
    (fresh : ∀ value ∈ dest, value.id.index = draft.function.valueSupply) :
    (((draft.function.operands ++ unused) ++ dest.toList).map Value.id).Nodup := by
  rw [List.map_append, List.nodup_append]
  refine ⟨assigned.once, ?_, ?_⟩
  · cases dest <;> simp
  · intro id isOld other isNew
    obtain ⟨value, known, rfl⟩ := List.mem_map.mp isOld
    obtain ⟨next, isDest, rfl⟩ := List.mem_map.mp isNew
    intro same
    have old := assigned.bounded value known
    rw [same, fresh next (Option.mem_toList.mp isDest)] at old
    exact Nat.lt_irrefl _ old

theorem bounded_fresh (assigned : draft.Assigned unused) {dest : Option Value}
    (fresh : ∀ value ∈ dest, value.id.index = draft.function.valueSupply) :
    ∀ value ∈ (draft.function.operands ++ unused) ++ dest.toList,
      value.id.index < draft.function.valueSupply + dest.toList.length := by
  intro value known
  rcases List.mem_append.mp known with isOld | isDest
  · exact Nat.lt_add_right _ (assigned.bounded value isOld)
  · rw [Option.mem_toList] at isDest
    rw [fresh value isDest, Option.mem_def.mp isDest]
    exact Nat.lt_succ_self _

/-- An instruction uses values of the block under the cursor and may define the next value. -/
theorem write (assigned : draft.Assigned unused) (isOpen : draft.IsOpen)
    {instruction : Instruction} {rest : List Value}
    (used : unused.Perm (instruction.operands ++ rest))
    (own : ∀ value ∈ instruction.operands, draft.Holds [value] ∨
      value ∈ draft.function.copiedIn draft.cursor ∧ ∃ slot, instruction = .store slot value)
    (fresh : ∀ dest ∈ instruction.dest?, dest.id.index = draft.function.valueSupply) :
    (draft.write instruction).Assigned (instruction.dest?.toList ++ rest) := by
  obtain ⟨block, found, -⟩ := isOpen
  have values := operands_unused_write found used
  have results : ((draft.function.parameters ++ (draft.write instruction).function.results).map
      fun value => value.id.index).Perm
        (((draft.function.parameters ++ draft.function.results).map fun value => value.id.index) ++
          instruction.dest?.toList.map fun value => value.id.index) := by
    rw [← List.map_append, List.append_assoc]
    exact ((results_write found instruction).append_left _).map _
  constructor
  case numbered =>
    refine (results.trans (assigned.numbered.append_right _)).trans ?_
    rw [valueSupply_write]
    cases isDest : instruction.dest? with
    | none => simp
    | some dest =>
        rw [isDest] at fresh
        simp [fresh dest rfl, List.range_succ]
  case bounded =>
    intro value known
    exact assigned.bounded_fresh fresh value (values.mem_iff.mp known)
  case once =>
    rw [(values.map Value.id).nodup_iff]
    exact assigned.nodup_fresh fresh
  case uses =>
    intro id other foundOther
    rw [block?_write] at foundOther
    split at foundOther
    · next isCursor =>
      subst isCursor
      rw [found] at foundOther
      cases foundOther
      refine (assigned.uses _ block found).append ?_
      intro value isUsed
      rcases own value isUsed with holds | copied
      · obtain ⟨current, foundCurrent, isDefined⟩ := holds value (List.mem_singleton_self value)
        rw [found] at foundCurrent
        cases foundCurrent
        exact .inl isDefined
      · exact .inr copied
    · exact assigned.uses id other foundOther

/-- A terminator uses values of the block under the cursor. -/
theorem close (assigned : draft.Assigned unused) (isOpen : draft.IsOpen) {terminator : Terminator}
    (used : unused.Perm terminator.operands) (holds : draft.Holds unused) :
    (draft.close terminator).Assigned [] := by
  have operands := operands_close isOpen terminator
  obtain ⟨block, found, -⟩ := isOpen
  have values : ((draft.close terminator).function.operands ++ []).Perm
      (draft.function.operands ++ unused) := by
    rw [List.append_nil]
    exact operands.trans (used.symm.append_left _)
  constructor
  case numbered =>
    have results := ((results_close found terminator).append_left draft.function.parameters).map
      fun value => value.id.index
    rw [List.append_nil] at results
    exact results.trans assigned.numbered
  case bounded =>
    intro value known
    exact assigned.bounded value (values.mem_iff.mp known)
  case once =>
    rw [(values.map Value.id).nodup_iff]
    exact assigned.once
  case uses =>
    intro id other foundOther
    rw [block?_close] at foundOther
    split at foundOther
    · next isCursor =>
      subst isCursor
      rw [found] at foundOther
      cases foundOther
      refine (assigned.uses _ block found).close ?_
      intro value isUsed
      obtain ⟨current, foundCurrent, isDefined⟩ := holds value (used.mem_iff.mpr isUsed)
      rw [found] at foundCurrent
      cases foundCurrent
      exact isDefined
    · exact assigned.uses id other foundOther

/-- A reservation neither defines nor uses a value. -/
theorem reserve (assigned : draft.Assigned unused)
    (entry : (draft.function.block? draft.function.entry).isSome) (name : String)
    (type : ValueType) : (draft.reserve name type).2.Assigned unused := by
  obtain ⟨block, found⟩ := Option.isSome_iff_exists.mp entry
  have results : (draft.reserve name type).2.function.results.Perm
      (draft.function.results ++ []) := by
    apply flatMap_modify_perm found
    rw [BasicBlock.append, defined, List.filterMap_append]
    exact .refl _
  have operands : (draft.reserve name type).2.function.operands.Perm
      (draft.function.operands ++ []) := by
    apply flatMap_modify_perm found
    simp [BasicBlock.operands, BasicBlock.append, Instruction.operands]
  rw [List.append_nil] at results operands
  constructor
  case numbered =>
    exact ((results.append_left _).map _).trans assigned.numbered
  case bounded =>
    intro value known
    exact assigned.bounded value ((operands.append_right _).mem_iff.mp known)
  case once =>
    rw [((operands.append_right _).map Value.id).nodup_iff]
    exact assigned.once
  case uses =>
    intro id other foundOther
    rw [block?_reserve] at foundOther
    split at foundOther
    · next isEntry =>
      obtain ⟨before, foundBefore, rfl⟩ := Option.map_eq_some_iff.mp foundOther
      refine (assigned.uses _ before foundBefore).append ?_
      intro value isUsed
      cases isUsed
    · exact assigned.uses id other foundOther

theorem newBlock (assigned : draft.Assigned unused) (label : String) :
    (draft.newBlock label).2.Assigned unused := by
  have results : (draft.newBlock label).2.function.results = draft.function.results := by
    simp [Function.results, Draft.newBlock, Function.pushBlock, BasicBlock.empty, defined]
  have operands : (draft.newBlock label).2.function.operands = draft.function.operands := by
    simp [Function.operands, Draft.newBlock, Function.pushBlock, BasicBlock.empty,
      BasicBlock.operands, Terminator.operands]
  constructor
  case numbered =>
    rw [results]
    exact assigned.numbered
  case bounded =>
    rw [operands]
    exact assigned.bounded
  case once =>
    rw [operands]
    exact assigned.once
  case uses =>
    intro id other foundOther
    rw [block?_newBlock] at foundOther
    split at foundOther
    · cases foundOther
      exact .empty _ _ _
    · exact assigned.uses id other foundOther

/-- Values that are never used may be forgotten. -/
theorem sublist (assigned : draft.Assigned unused) {fewer : List Value}
    (sublist : fewer.Sublist unused) : draft.Assigned fewer where
  numbered := assigned.numbered
  bounded := fun value known =>
    assigned.bounded value ((sublist.append_left _).subset known)
  once := assigned.once.sublist ((sublist.append_left _).map _)
  uses := assigned.uses

end Assigned

/-- Instructions can be written, and they may use the given values. -/
structure Supplies (draft : Draft) (values : List Value) : Prop where
  isOpen : draft.IsOpen
  assigned : draft.Assigned values
  holds : draft.Holds values

/-- An instruction uses the latest values and puts its result in their place. -/
theorem Supplies.write (supplies : draft.Supplies unused) (instruction : Instruction)
    {rest : List Value} (used : unused = instruction.operands.reverse ++ rest)
    (fresh : ∀ dest ∈ instruction.dest?, dest.id.index = draft.function.valueSupply) :
    (draft.write instruction).Supplies (instruction.dest?.toList ++ rest) where
  isOpen := isOpen_write supplies.isOpen instruction
  assigned := by
    refine supplies.assigned.write supplies.isOpen ?_ ?_ fresh
    · rw [used]
      exact (List.reverse_perm _).append_right _
    · intro value isUsed
      refine .inl ?_
      intro other isValue
      obtain rfl := List.mem_singleton.mp isValue
      apply supplies.holds
      rw [used]
      exact List.mem_append_left _ (List.mem_reverse.mpr isUsed)
  holds := by
    refine supplies.holds.write supplies.isOpen ?_ instruction
    rw [used]
    exact List.subset_append_right _ _

end Draft

end Ir

namespace Lowering

theorem supplies_transfer {draft : Ir.Draft} {values : List Ir.Value}
    (supplies : draft.Supplies values) (transfers : List Transfer) :
    (writeAll draft (transferCode draft.function.valueSupply transfers)).Supplies values := by
  induction transfers generalizing draft with
  | nil => exact supplies
  | cons transfer rest ih =>
      obtain ⟨type, source, target⟩ := transfer
      have loaded : (draft.write (.load (draft.next type) source)).Supplies
          ([draft.next type] ++ values) :=
        supplies.write _ rfl fun dest isDest => by cases isDest; rfl
      have stored := loaded.write (.store target (draft.next type)) rfl
        fun dest isDest => by cases isDest
      exact ih stored

variable {context : Context} {outer : List Ir.BlockId}

/-- The pending values of a stage are those that have been defined and not been used. -/
structure Stage.Assigned (stage : Stage) : Prop where
  settled : stage.Settled
  values : stage.draft.Assigned stage.pending
  holds : stage.draft.Holds stage.pending
  idle : stage.draft.isClosed = true → stage.pending = []

theorem Stage.Assigned.supplies {stage : Stage} (assigned : stage.Assigned)
    (isOpen : stage.draft.IsOpen) : stage.draft.Supplies stage.pending :=
  ⟨isOpen, assigned.values, assigned.holds⟩

/-- As long as the block under the cursor is open, it does not matter that values are pending. -/
theorem Stage.Assigned.of_supplies {stage : Stage} (settled : stage.Settled)
    (supplies : stage.draft.Supplies stage.pending) : stage.Assigned where
  settled := settled
  values := supplies.assigned
  holds := supplies.holds
  idle := by
    intro isClosed
    rw [supplies.isOpen.isClosed] at isClosed
    cases isClosed

/-- What is written by itself defines the next value, if it defines one. -/
theorem Writable.fresh {state : State} {instruction : Ir.Instruction}
    (writable : Writable context state instruction) :
    ∀ dest ∈ instruction.dest?, dest.id.index = state.draft.function.valueSupply := by
  have call {type : Ir.ValueType} : ∀ dest ∈ state.draft.callResult type,
      dest.id.index = state.draft.function.valueSupply := by
    intro dest isDest
    rw [Ir.Draft.callResult_eq_some isDest]
    rfl
  intro dest isDest
  cases writable with
  | const | load | testNonZero =>
      cases isDest
      rfl
  | store => cases isDest
  | callFunction | callBuiltin => exact call dest isDest

theorem supplies_receive {draft : Ir.Draft} {values rest arguments : List Ir.Value}
    (supplies : draft.Supplies values) {type : Ir.ValueType} {result : Ir.Value}
    (hasResult : draft.callResult type = some result) (used : values = arguments.reverse ++ rest)
    (callee : Ir.Callee) (first : Binding) (others : List (Binding × Ir.GlobalId)) :
    (writeAll draft (receiveCode result callee arguments first others)).Supplies rest := by
  obtain rfl := Ir.Draft.callResult_eq_some hasResult
  have called := supplies.write (.call (some (draft.next type)) callee arguments) used
    fun dest isDest => by cases isDest; rfl
  have stored := called.write (.store (.ofLocal first.slot) (draft.next type)) rfl
    fun dest isDest => by cases isDest
  exact supplies_transfer stored _

theorem Move.assigned {stage later : Stage} (move : Move context outer stage later)
    (assigned : stage.Assigned) : later.Assigned := by
  have settled := move.settled assigned.settled
  cases move with
  | write instruction rest isOpen used writable =>
      exact .of_supplies settled
        ((assigned.supplies isOpen).write instruction used writable.fresh)
  | receive name signature result arguments rest first others announced isOpen _ _ _ _ hasResult
      used =>
      exact .of_supplies settled
        (supplies_receive (assigned.supplies isOpen) hasResult used _ first others)
  | declare name type =>
      exact ⟨settled, assigned.values.reserve assigned.settled.entry name type,
        assigned.holds.reserve name type,
        fun isClosed => assigned.idle (by rwa [← Ir.Draft.isClosed_reserve _ name type])⟩
  | newBlock label =>
      exact ⟨settled, assigned.values.newBlock label, assigned.holds.newBlock label,
        fun isClosed => assigned.idle (by rwa [← Ir.Draft.isClosed_newBlock _ label])⟩
  | close terminator isOpen used exits =>
      have values := assigned.values.close isOpen (used ▸ List.reverse_perm _) assigned.holds
      exact ⟨settled, values, .nil _, fun _ => rfl⟩
  | discard value rest unused =>
      have fewer : rest.Sublist stage.pending := unused ▸ List.sublist_cons_self value rest
      refine ⟨settled, assigned.values.sublist fewer,
        fun other known => assigned.holds other (fewer.subset known), ?_⟩
      intro isClosed
      exact List.sublist_nil.mp (assigned.idle isClosed ▸ fewer)
  | moveTo block before after isClosed waits =>
      have idle := assigned.idle isClosed
      have values := assigned.values
      refine ⟨settled, ⟨values.numbered, values.bounded, values.once, values.uses⟩, ?_,
        fun _ => idle⟩
      show Ir.Draft.Holds _ stage.pending
      rw [idle]
      exact .nil _
  | announce | declareBuiltin | enterBlock | leaveBlock | enterLoop | leaveLoop =>
      exact ⟨settled, assigned.values, assigned.holds, assigned.idle⟩

theorem Moves.assigned {stage later : Stage} (moves : Moves context outer stage later)
    (assigned : stage.Assigned) : later.Assigned :=
  moves.keeps Move.assigned assigned

/-! ## Whole functions -/

/-- At first there are the parameters, and nothing has used them. -/
theorem assigned_begin (progress : Progress) (name : String) (signature : Signature) :
    (progress.begin name signature).draft.Assigned
      (progress.begin name signature).draft.function.parameters := by
  have indices := progress.indices_parameters name signature
  constructor
  case numbered =>
    show ((_ ++ []).map _).Perm _
    rw [List.append_nil, indices]
    exact .refl _
  case bounded =>
    intro value known
    have index : value.id.index ∈ List.range signature.parameters.length := by
      rw [← indices]
      exact List.mem_map_of_mem known
    exact List.mem_range.mp index
  case once =>
    exact progress.nodup_parameters name signature
  case uses =>
    intro id block found
    obtain ⟨_ | index⟩ := id
    · cases found
      exact .empty _ _ _
    · cases found

/-- Copying the parameters uses each of them at most once, where it stands. -/
theorem assigned_bound {state : State} (begins : state.Begins)
    (assigned : state.draft.Assigned state.draft.function.parameters) (names : List TypedName) :
    (state.bound names state.draft.function.parameters).draft.Assigned [] := by
  let motive (values : List Ir.Value) (state : State) : Prop :=
    state.Begins ∧ state.draft.Assigned values ∧ values ⊆ state.draft.function.parameters
  have copy {state : State} {value : Ir.Value} {values : List Ir.Value} (name : String)
      (holds : motive (value :: values) state) :
      motive values ((state.declared name value.type).stored state.draft.nextLocal value) := by
    obtain ⟨begins, assigned, areParameters⟩ := holds
    refine ⟨begins.copied name value, ?_, List.Subset.trans (List.subset_cons_self value values) areParameters⟩
    have reserved := assigned.reserve begins.settled.entry name value.type
    refine reserved.write (Ir.Draft.isOpen_reserve begins.isOpen name value.type) (.refl _) ?_ ?_
    · intro used isValue
      obtain rfl := List.mem_singleton.mp isValue
      refine .inr ⟨?_, _, rfl⟩
      have isEntry : state.draft.cursor = state.draft.function.entry :=
        begins.cursor.trans begins.entry.symm
      show used ∈ if state.draft.cursor = state.draft.function.entry then
        state.draft.function.parameters else []
      rw [if_pos isEntry]
      exact areParameters List.mem_cons_self
    · intro dest isDest
      cases isDest
  obtain ⟨rest, -, assigned, -⟩ := State.bound_keeps copy names state.draft.function.parameters
    ⟨begins, assigned, List.Subset.refl _⟩
  exact assigned.sublist (List.nil_sublist rest)

theorem assigned_returned {state : State} (isOpen : state.draft.IsOpen)
    (assigned : state.draft.Assigned []) (returns : List Binding) :
    (state.returned returns).draft.Assigned [] := by
  have supplies : state.draft.Supplies [] := ⟨isOpen, assigned, .nil _⟩
  cases returns with
  | nil => exact assigned.close isOpen (.refl _) (.nil _)
  | cons first others =>
      have loaded := supplies.write (.load (state.draft.next first.type) (.ofLocal first.slot)) rfl
        fun dest isDest => by cases isDest; rfl
      have spilled := supplies_transfer loaded
        ((others.zip (state.reserved others.length).spills.slots).map .spilled)
      exact spilled.assigned.close spilled.isOpen (.refl _) spilled.holds

/-- When a function is finished, no value waits to be used. -/
theorem Origin.assigned {last : Progress} {definition : Definition} {function : Ir.Function}
    (origin : Origin context last definition function) :
    (origin.finish.state.returned origin.returns).draft.Assigned [] := by
  have started : Stage.Assigned (.resting origin.start) :=
    ⟨origin.begins.settled, assigned_bound (origin.before.begins _ _) (assigned_begin _ _ _) _,
      .nil _, fun _ => rfl⟩
  have finished := (origin.moves.assigned started).values
  rw [origin.run.rested.pending] at finished
  exact assigned_returned origin.isOpen finished origin.returns

theorem Origin.singleAssignment {last : Progress} {definition : Definition}
    {function : Ir.Function} (origin : Origin context last definition function) :
    function.SingleAssignment := by
  have assigned := origin.assigned
  rw [origin.function_eq]
  exact ⟨⟨_, assigned.numbered⟩, by simpa using assigned.once, assigned.uses⟩

/-- As many values have been numbered as are defined. -/
theorem Origin.valueSupply_eq {last : Progress} {definition : Definition} {function : Ir.Function}
    (origin : Origin context last definition function) :
    function.valueSupply = (function.parameters ++ function.results).length := by
  have numbers := origin.assigned.numbered.length_eq
  rw [List.length_map, List.length_range] at numbers
  rw [origin.function_eq]
  exact numbers.symm

end Lowering

/-- In lowered functions every value is defined once and used at most once, in one block. -/
theorem Block.singleAssignment_of_toModule {dialect : Dialect} {types : Lowering.TypeNames}
    {name : String} {program : Block} {module : Ir.Module}
    (lowered : program.toModule dialect types name = .ok module) :
    ∀ function ∈ module.functions, function.SingleAssignment := by
  obtain ⟨compiled⟩ := Lowering.toModule_inv lowered
  intro function member
  obtain ⟨definition, ⟨origin⟩⟩ := compiled.origin_of_mem member
  exact origin.singleAssignment

/-- Calls within calls, under a condition and in both functions. -/
def nestedCalls : Block :=
  [.definition "f" [⟨"a", ""⟩, ⟨"b", ""⟩] [⟨"r", ""⟩]
    [.conditional (.call "g" [.identifier "a", .call "g" [.identifier "b", .identifier "a"]])
      [.assignment ["r"] (.call "f" [.identifier "b", .identifier "a"])]],
    .definition "g" [⟨"x", ""⟩, ⟨"y", ""⟩] [⟨"s", ""⟩]
      [.assignment ["s"] (.call "f" [.identifier "y", .literal (.number "0x7" "")])]]

theorem Block.singleAssignment_of_toModule_nestedCalls :
    ∃ module, nestedCalls.toModule (.empty .strict) .standard "m" = .ok module ∧
      ∀ function ∈ module.functions, function.SingleAssignment := by
  have isOk : (nestedCalls.toModule (.empty .strict) .standard "m").isOk = true := by
    decide +kernel
  cases lowered : nestedCalls.toModule (.empty .strict) .standard "m" with
  | error error =>
      rw [lowered] at isOk
      cases isOk
  | ok module => exact ⟨module, rfl, Block.singleAssignment_of_toModule lowered⟩

end YulLowering
