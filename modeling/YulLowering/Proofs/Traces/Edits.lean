import YulLowering.Proofs.Agreement
import YulLowering.Proofs.Outcomes
import YulLowering.Proofs.SingleAssignment
import YulLowering.Proofs.Traces.Events
import YulLowering.Proofs.Typing.Expressions

/-!
# Lowering, edit by edit

What a lowering does to its state is a sequence of edits, some of which answer events of the source. A trace
is such a sequence together with these events, in order. What is said of a lowered program by following its
source is shown for each kind of edit and holds along every trace.
-/

namespace YulLowering

namespace Ir

/-- What stands in a call instruction. -/
structure Call where
  dest : Option Value
  callee : Callee
  arguments : List Value
deriving DecidableEq, Repr, Inhabited

/-- The call that an instruction makes. -/
def Instruction.call? : Instruction → Option Call
  | call dest callee arguments => some ⟨dest, callee, arguments⟩
  | const _ _ | reserve _ _ | load _ _ | store _ _ | testNonZero _ _ => none

/-- The code of each block of a function. -/
def Function.codes (function : Function) : List (List Instruction) :=
  function.blocks.map BasicBlock.instructions

theorem Function.instructions_eq (function : Function) :
    function.instructions = function.codes.flatten := by
  rw [instructions, codes, List.flatMap_def]

/-- The calls of a function, in block order. -/
def Function.calls (function : Function) : List Call :=
  function.instructions.filterMap Instruction.call?

/-- The labels of the blocks of a function. -/
def Function.labels (function : Function) : List String :=
  function.blocks.flatMap fun block => block.label.toList

/-- What blocks are labelled with. -/
def blockLabels : List String :=
  ["entry", "unreachable", "if.then", "if.end", "switch.case", "switch.default", "switch.end",
    "for.init", "for.cond", "for.body", "for.post", "for.exit"]

/-- What is collected from the elements of a list stays as it is if nothing changes in the one element. -/
theorem flatMap_modify_eq {α β : Type} {collect : β → List α} {change : β → β}
    (same : ∀ item, collect (change item) = collect item) (items : List β) (index : Nat) :
    (items.modify index change).flatMap collect = items.flatMap collect := by
  induction items generalizing index with
  | nil => simp
  | cons head rest ih =>
      cases index with
      | zero => rw [List.modify_zero_cons, List.flatMap_cons, List.flatMap_cons, same]
      | succ index => rw [List.modify_succ_cons, List.flatMap_cons, List.flatMap_cons, ih]

/-- To change one element and then take something of each is to change what is taken of the one. -/
theorem map_modify {α β : Type} {take : α → β} {change : α → α} {grow : β → β}
    (commute : ∀ item, take (change item) = grow (take item)) (items : List α) (index : Nat) :
    (items.modify index change).map take = (items.map take).modify index grow := by
  induction items generalizing index with
  | nil => cases index <;> rfl
  | cons head rest ih =>
      cases index with
      | zero => rw [List.modify_zero_cons, List.map_cons, List.map_cons, List.modify_zero_cons, commute]
      | succ index =>
          rw [List.modify_succ_cons, List.map_cons, List.map_cons, List.modify_succ_cons, ih]

namespace Draft

variable {draft : Draft}

/-- There is a block under the cursor. -/
def Anchored (draft : Draft) : Prop :=
  draft.cursor.index < draft.function.blocks.length

theorem Anchored.write (anchored : draft.Anchored) (instruction : Instruction) :
    (draft.write instruction).Anchored := by
  unfold Anchored
  rw [length_blocks_write]
  exact anchored

theorem Anchored.reserve (anchored : draft.Anchored) (name : String) (type : ValueType) :
    (draft.reserve name type).2.Anchored := by
  unfold Anchored
  rw [length_blocks_reserve]
  exact anchored

theorem instructions_write (anchored : draft.Anchored) (instruction : Instruction) :
    (draft.write instruction).function.instructions.Perm
      (draft.function.instructions ++ [instruction]) :=
  flatMap_modify_perm (List.getElem?_eq_getElem anchored) (.refl _)

theorem calls_write (anchored : draft.Anchored) (instruction : Instruction) :
    (draft.write instruction).function.calls.Perm
      (draft.function.calls ++ instruction.call?.toList) := by
  have written := (instructions_write anchored instruction).filterMap Instruction.call?
  rw [List.filterMap_append] at written
  cases isCall : instruction.call? <;> simpa [Function.calls, isCall] using written

theorem codes_write (draft : Draft) (instruction : Instruction) :
    (draft.write instruction).function.codes =
      draft.function.codes.modify draft.cursor.index (· ++ [instruction]) := by
  refine map_modify (fun block => ?_) _ _
  rfl

theorem codes_reserve (draft : Draft) (name : String) (type : ValueType) :
    (draft.reserve name type).2.function.codes =
      draft.function.codes.modify draft.function.entry.index (· ++ [.reserve draft.nextLocal type]) := by
  refine map_modify (fun block => ?_) _ _
  rfl

@[simp] theorem codes_close (draft : Draft) (terminator : Terminator) :
    (draft.close terminator).function.codes = draft.function.codes := by
  have same (block : BasicBlock) : (block.close terminator).instructions = id block.instructions := rfl
  exact (map_modify same _ _).trans (List.modify_id _ _)

@[simp] theorem codes_newBlock (draft : Draft) (label : String) :
    (draft.newBlock label).2.function.codes = draft.function.codes ++ [[]] := by
  simp [newBlock, Function.pushBlock, Function.codes, BasicBlock.empty]

@[simp] theorem codes_fallThrough (draft : Draft) (target : BlockId) :
    (draft.fallThrough target).function.codes = draft.function.codes := by
  unfold fallThrough
  split
  · rfl
  · exact codes_close draft _

theorem instructions_close (draft : Draft) (terminator : Terminator) :
    (draft.close terminator).function.instructions = draft.function.instructions := by
  rw [Function.instructions_eq, Function.instructions_eq, codes_close]

@[simp] theorem labels_write (draft : Draft) (instruction : Instruction) :
    (draft.write instruction).function.labels = draft.function.labels := by
  refine flatMap_modify_eq (fun block => ?_) _ _
  rfl

@[simp] theorem labels_close (draft : Draft) (terminator : Terminator) :
    (draft.close terminator).function.labels = draft.function.labels := by
  refine flatMap_modify_eq (fun block => ?_) _ _
  rfl

@[simp] theorem labels_reserve (draft : Draft) (name : String) (type : ValueType) :
    (draft.reserve name type).2.function.labels = draft.function.labels := by
  refine flatMap_modify_eq (fun block => ?_) _ _
  rfl

@[simp] theorem labels_newBlock (draft : Draft) (label : String) :
    (draft.newBlock label).2.function.labels = draft.function.labels ++ [label] := by
  simp [newBlock, Function.pushBlock, Function.labels, BasicBlock.empty]

@[simp] theorem labels_fallThrough (draft : Draft) (target : BlockId) :
    (draft.fallThrough target).function.labels = draft.function.labels := by
  unfold fallThrough
  split
  · rfl
  · exact labels_close draft _

@[simp] theorem calls_reserve (draft : Draft) (name : String) (type : ValueType) :
    (draft.reserve name type).2.function.calls = draft.function.calls := by
  unfold Function.calls Function.instructions
  rw [List.filterMap_flatMap, List.filterMap_flatMap]
  refine flatMap_modify_eq (fun block => ?_) _ _
  simp [BasicBlock.append, Instruction.call?]

/-- Reserving a slot takes no instruction away. -/
theorem mem_instructions_reserve (name : String) (type : ValueType) {instruction : Instruction}
    (member : instruction ∈ draft.function.instructions) :
    instruction ∈ (draft.reserve name type).2.function.instructions := by
  obtain ⟨block, isBlock, isInstruction⟩ := List.mem_flatMap.mp member
  obtain ⟨index, found⟩ := List.mem_iff_getElem?.mp isBlock
  apply List.mem_flatMap.mpr
  have changed := block?_reserve draft name type ⟨index⟩
  rw [show draft.function.block? ⟨index⟩ = some block from found] at changed
  split at changed
  · exact ⟨_, List.mem_of_getElem? changed, List.mem_append_left _ isInstruction⟩
  · exact ⟨block, List.mem_of_getElem? changed, isInstruction⟩

@[simp] theorem locals_fallThrough (draft : Draft) (target : BlockId) :
    (draft.fallThrough target).function.locals = draft.function.locals := by
  unfold fallThrough
  split <;> rfl

@[simp] theorem valueSupply_close (draft : Draft) (terminator : Terminator) :
    (draft.close terminator).function.valueSupply = draft.function.valueSupply := rfl

@[simp] theorem valueSupply_fallThrough (draft : Draft) (target : BlockId) :
    (draft.fallThrough target).function.valueSupply = draft.function.valueSupply := by
  unfold fallThrough
  split <;> rfl

@[simp] theorem length_blocks_fallThrough (draft : Draft) (target : BlockId) :
    (draft.fallThrough target).function.blocks.length = draft.function.blocks.length := by
  unfold fallThrough
  split
  · rfl
  · exact length_blocks_close draft _

@[simp] theorem cursor_fallThrough (draft : Draft) (target : BlockId) :
    (draft.fallThrough target).cursor = draft.cursor := by
  unfold fallThrough
  split <;> rfl

end Draft

end Ir

namespace Lowering

/-! ## What events are answered with -/

/-- An argument that is a literal, and a value that has been defined as the constant that it denotes. -/
def Denotes (code : List Ir.Instruction) (argument : Expression) (value : Ir.Value) : Prop :=
  ∃ literal constant, argument = .literal literal ∧ literal.value? = some constant ∧
    .const value constant ∈ code

/-- How a call of the source is written. The arguments of a builtin that takes literals are constants of the
given code. -/
inductive Context.Writes (context : Context) (code : List Ir.Instruction) : Call → Ir.Call → Prop where
  | function {call : Call} (signature : Signature) (dest : Option Ir.Value)
      (arguments : List Ir.Value)
      (resolved : context.resolveCall call.callee = .ok (.function signature))
      (result : dest.map Ir.Value.type = signature.resultType.carried?) :
      context.Writes code call ⟨dest, .function signature.id, arguments⟩
  | builtin {call : Call} (builtin : Builtin) (external : Ir.External) (dest : Option Ir.Value)
      (arguments : List Ir.Value)
      (resolved : context.resolveCall call.callee = .ok (.builtin builtin))
      (isExternal : context.external builtin = .ok external)
      (result : dest.map Ir.Value.type = (external.results.head?.getD .void).carried?)
      (literals : builtin.literalArguments = true →
        List.Forall₂ (Denotes code) call.arguments arguments) :
      context.Writes code call ⟨dest, .builtin external.name external.effects, arguments⟩

theorem Denotes.mono {code more : List Ir.Instruction} {argument : Expression} {value : Ir.Value}
    (grow : code ⊆ more) (denotes : Denotes code argument value) : Denotes more argument value := by
  obtain ⟨literal, constant, isLiteral, hasValue, member⟩ := denotes
  exact ⟨literal, constant, isLiteral, hasValue, grow member⟩

theorem Context.Writes.mono {context : Context} {code more : List Ir.Instruction} {call : Call}
    {written : Ir.Call} (grow : code ⊆ more) (writes : context.Writes code call written) :
    context.Writes more call written := by
  cases writes with
  | function signature dest arguments resolved result =>
      exact .function signature dest arguments resolved result
  | builtin builtin external dest arguments resolved isExternal result literals =>
      exact .builtin builtin external dest arguments resolved isExternal result fun taken =>
        (literals taken).imp fun _ _ => .mono grow

/-- Where several variables are given the values of an expression, it is a call of a function with as many
results. -/
def Context.Receives (context : Context) (reception : Reception) : Prop :=
  2 ≤ reception.count → ∃ callee arguments signature,
    reception.value = .call callee arguments ∧
      context.resolveCall callee = .ok (.function signature) ∧
      signature.results.length = reception.count

/-- The variables that values are for, where they are given them: those with the latest slots, or those that
the names mean there. -/
def State.Aims (state : State) : Targets → List Binding → Prop
  | .latest count, bindings =>
    bindings.map (fun binding => binding.slot.index) =
      List.range' (state.draft.function.locals.length - count) count
  | .named names, bindings => state.scope.Means names bindings

theorem State.Aims.length_eq {state : State} {targets : Targets} {bindings : List Binding}
    (aims : state.Aims targets bindings) : bindings.length = targets.count := by
  cases targets with
  | latest count =>
      have lengths := congrArg List.length aims
      rwa [List.length_map, List.length_range'] at lengths
  | named names => exact (List.Forall₂.length_eq aims).symm

/-! ## Edits and traces -/

/-- A change that writes no instruction, declares nothing and leaves no block out. -/
structure Quiet (state later : State) : Prop where
  anchored : later.draft.Anchored
  /-- Blocks that are new have no code. -/
  codes : ∃ count, later.draft.function.codes =
    state.draft.function.codes ++ List.replicate count []
  locals : later.draft.function.locals = state.draft.function.locals
  supply : later.draft.function.valueSupply = state.draft.function.valueSupply
  labels : later.draft.function.labels ⊆ state.draft.function.labels ++ Ir.blockLabels
  scope : later.scope = state.scope
  pooled : state.progress.Pooled → later.progress.Pooled
  name : later.module.name = state.module.name
  functions : later.module.functions = state.module.functions
  externals : later.module.externals = state.module.externals

namespace Quiet

variable {state later : State}

/-- A change outside of the function under construction. -/
theorem of_eq (anchored : state.draft.Anchored) (draft : later.draft = state.draft)
    (scope : later.scope = state.scope) (pooled : state.progress.Pooled → later.progress.Pooled)
    (name : later.module.name = state.module.name)
    (functions : later.module.functions = state.module.functions)
    (externals : later.module.externals = state.module.externals) : Quiet state later where
  anchored := draft.symm ▸ anchored
  codes := ⟨0, by rw [draft, List.replicate_zero, List.append_nil]⟩
  locals := by rw [draft]
  supply := by rw [draft]
  labels := by
    rw [draft]
    exact List.subset_append_left _ _
  scope := scope
  pooled := pooled
  name := name
  functions := functions
  externals := externals

/-- A change of the function that its code does not show. -/
theorem of_codes_eq {draft : Ir.Draft} (anchored : draft.Anchored)
    (codes : draft.function.codes = state.draft.function.codes)
    (locals : draft.function.locals = state.draft.function.locals)
    (supply : draft.function.valueSupply = state.draft.function.valueSupply)
    (labels : draft.function.labels = state.draft.function.labels) :
    Quiet state { state with draft := draft } where
  anchored := anchored
  codes := ⟨0, by rw [codes, List.replicate_zero, List.append_nil]⟩
  locals := locals
  supply := supply
  labels := by
    rw [labels]
    exact List.subset_append_left _ _
  scope := rfl
  pooled := id
  name := rfl
  functions := rfl
  externals := rfl

theorem instructions (quiet : Quiet state later) :
    later.draft.function.instructions = state.draft.function.instructions := by
  obtain ⟨count, codes⟩ := quiet.codes
  simp [Ir.Function.instructions_eq, codes]

theorem blocks (quiet : Quiet state later) :
    state.draft.function.blocks.length ≤ later.draft.function.blocks.length := by
  obtain ⟨count, codes⟩ := quiet.codes
  have lengths := congrArg List.length codes
  simp only [Ir.Function.codes, List.length_append, List.length_map] at lengths
  omega

end Quiet

/-- One edit, and the events that it answers if there are any. -/
inductive Edit (context : Context) : List Event → State → State → Prop where
  | quiet {state later : State} (quiet : Quiet state later) : Edit context [] state later
  | enter {state : State} :
      Edit context [.entered] state { state with scope := state.scope.enter }
  | leave {state : State} :
      Edit context [.left] state { state with scope := state.scope.leave }
  | write {state : State} (instruction : Ir.Instruction) (plain : instruction.call? = none)
      (own : instruction.globals = []) : Edit context [] state (state.written instruction)
  | declare {state : State} (name : String) (type : Ir.ValueType) :
      Edit context [.declared name] state (state.declared name type)
  | callFunction {state : State} (call : Call) (signature : Signature) (arguments : List Ir.Value)
      (resolved : context.resolveCall call.callee = .ok (.function signature)) :
      Edit context [.called call] state
        (state.written (.call (state.draft.callResult signature.resultType)
          (.function signature.id) arguments))
  | callBuiltin {state : State} (call : Call) (builtin : Builtin) (external : Ir.External)
      (arguments : List Ir.Value)
      (resolved : context.resolveCall call.callee = .ok (.builtin builtin))
      (isExternal : context.external builtin = .ok external)
      (literals : builtin.literalArguments = true →
        List.Forall₂ (Denotes state.draft.function.instructions) call.arguments arguments) :
      Edit context [.called call] state
        ((state.imported external).written
          (.call (state.draft.callResult (external.results.head?.getD .void))
            (.builtin external.name external.effects) arguments))
  /-- No more than one variable is given a value, for which nothing more has to be written. -/
  | receiveOne {state : State} (targets : Targets) (value : Expression) (few : targets.count < 2) :
      Edit context [.received targets value] state state
  /-- Several variables are given the results of a call, by way of the first spill slots. -/
  | receive {state : State} (call : Call) (targets : Targets) (signature : Signature)
      (result : Ir.Value) (arguments : List Ir.Value) (first : Binding) (others : List Binding)
      (resolved : context.resolveCall call.callee = .ok (.function signature))
      (count : signature.results.length = others.length + 1) (several : others ≠ [])
      (hasResult : state.draft.callResult signature.resultType = some result)
      (enough : others.length ≤ state.spills.slots.length)
      (aims : state.Aims targets (first :: others)) :
      Edit context [.called call, .received targets (.call call.callee call.arguments)] state
        { state with draft := writeAll state.draft (receiveCode result (.function signature.id)
            arguments first (others.zip state.spills.slots)) }

/-- Any number of edits, with the events that they answer. -/
inductive Trace (context : Context) : List Event → State → State → Prop where
  | refl (state : State) : Trace context [] state state
  | edit {events more : List Event} {state middle later : State}
      (first : Edit context events state middle) (rest : Trace context more middle later) :
      Trace context (events ++ more) state later

variable {context : Context} {events more : List Event} {state middle later : State}

theorem Edit.trace (edit : Edit context events state later) : Trace context events state later := by
  have trace := Trace.edit edit (.refl later)
  rwa [List.append_nil] at trace

/-! ## Several instructions at once -/

theorem anchored_writeAll {draft : Ir.Draft} (anchored : draft.Anchored)
    (code : List Ir.Instruction) : (writeAll draft code).Anchored := by
  induction code generalizing draft with
  | nil => exact anchored
  | cons instruction code ih => exact ih (anchored.write instruction)

@[simp] theorem length_blocks_writeAll (draft : Ir.Draft) (code : List Ir.Instruction) :
    (writeAll draft code).function.blocks.length = draft.function.blocks.length := by
  induction code generalizing draft with
  | nil => rfl
  | cons instruction code ih => rw [writeAll_cons, ih, Ir.Draft.length_blocks_write]

@[simp] theorem labels_writeAll (draft : Ir.Draft) (code : List Ir.Instruction) :
    (writeAll draft code).function.labels = draft.function.labels := by
  induction code generalizing draft with
  | nil => rfl
  | cons instruction code ih => rw [writeAll_cons, ih, Ir.Draft.labels_write]

theorem valueSupply_le_writeAll (draft : Ir.Draft) (code : List Ir.Instruction) :
    draft.function.valueSupply ≤ (writeAll draft code).function.valueSupply := by
  induction code generalizing draft with
  | nil => exact Nat.le_refl _
  | cons instruction code ih => exact Nat.le_trans (Nat.le_add_right _ _) (ih (draft.write instruction))

theorem codes_writeAll (draft : Ir.Draft) (code : List Ir.Instruction) :
    (writeAll draft code).function.codes =
      draft.function.codes.modify draft.cursor.index (· ++ code) := by
  induction code generalizing draft with
  | nil =>
      have same : (fun block : List Ir.Instruction => block ++ []) = id := by
        funext block
        exact List.append_nil block
      rw [same, List.modify_id]
      rfl
  | cons instruction code ih =>
      rw [writeAll_cons, ih, Ir.Draft.codes_write, Ir.Draft.cursor_write, List.modify_modify_eq]
      congr 1
      funext block
      exact List.append_assoc block [instruction] code

theorem instructions_writeAll {draft : Ir.Draft} (anchored : draft.Anchored)
    (code : List Ir.Instruction) : (writeAll draft code).function.instructions.Perm
      (draft.function.instructions ++ code) := by
  induction code generalizing draft with
  | nil => rw [List.append_nil]; rfl
  | cons instruction code ih =>
      have first := (Ir.Draft.instructions_write anchored instruction).append_right code
      rw [List.append_assoc] at first
      exact (ih (anchored.write instruction)).trans first

theorem calls_writeAll {draft : Ir.Draft} (anchored : draft.Anchored)
    (code : List Ir.Instruction) : (writeAll draft code).function.calls.Perm
      (draft.function.calls ++ code.filterMap Ir.Instruction.call?) := by
  have written := (instructions_writeAll anchored code).filterMap Ir.Instruction.call?
  rwa [List.filterMap_append] at written

/-- Copies call nothing. -/
theorem calls_transferCode (supply : Nat) (transfers : List Transfer) :
    (transferCode supply transfers).filterMap Ir.Instruction.call? = [] := by
  rw [List.filterMap_eq_nil_iff]
  intro instruction member
  obtain ⟨transfer, -, value, -, rfl | rfl⟩ := mem_transferCode member <;> rfl

theorem calls_receiveCode (result : Ir.Value) (callee : Ir.Callee) (arguments : List Ir.Value)
    (first : Binding) (others : List (Binding × Ir.GlobalId)) :
    (receiveCode result callee arguments first others).filterMap Ir.Instruction.call? =
      [⟨some result, callee, arguments⟩] :=
  congrArg (_ :: ·) (calls_transferCode _ _)

/-! ## What edits change -/

/-- A call, however it has been written, adds one call instruction. -/
theorem Edit.written (edit : Edit context events state later) (anchored : state.draft.Anchored) :
    ∃ calls, later.draft.function.calls.Perm (state.draft.function.calls ++ calls) ∧
      List.Forall₂ (context.Writes state.draft.function.instructions) (Event.calls events) calls := by
  cases edit with
  | quiet quiet =>
      refine ⟨[], ?_, .nil⟩
      rw [List.append_nil, Ir.Function.calls, quiet.instructions]
      rfl
  | write instruction plain =>
      refine ⟨[], ?_, .nil⟩
      have written := Ir.Draft.calls_write anchored instruction
      rwa [plain] at written
  | declare name type =>
      refine ⟨[], ?_, .nil⟩
      show (state.draft.reserve name type).2.function.calls.Perm _
      rw [Ir.Draft.calls_reserve, List.append_nil]
  | callFunction call signature arguments resolved =>
      exact ⟨_, Ir.Draft.calls_write anchored _, .cons
        (.function signature _ arguments resolved (carried?_callResult _ _)) .nil⟩
  | callBuiltin call builtin external arguments resolved isExternal literals =>
      exact ⟨_, Ir.Draft.calls_write anchored _, .cons
        (.builtin builtin external _ arguments resolved isExternal (carried?_callResult _ _) literals)
        .nil⟩
  | receive call targets signature result arguments first others resolved _ _ hasResult =>
      refine ⟨[⟨some result, .function signature.id, arguments⟩], ?_, .cons ?_ .nil⟩
      · rw [← calls_receiveCode]
        exact calls_writeAll anchored _
      · exact .function signature _ arguments resolved (hasResult ▸ carried?_callResult _ _)
  | enter | leave | receiveOne =>
      refine ⟨[], ?_, .nil⟩
      rw [List.append_nil]

theorem Edit.anchored (edit : Edit context events state later) (anchored : state.draft.Anchored) :
    later.draft.Anchored := by
  cases edit with
  | quiet quiet => exact quiet.anchored
  | write | callFunction | callBuiltin => exact anchored.write _
  | declare name type => exact anchored.reserve name type
  | receive => exact anchored_writeAll anchored _
  | enter | leave | receiveOne => exact anchored

theorem Edit.blocks (edit : Edit context events state later) :
    state.draft.function.blocks.length ≤ later.draft.function.blocks.length := by
  cases edit with
  | quiet quiet => exact quiet.blocks
  | write | callFunction | callBuiltin =>
      exact Nat.le_of_eq (Ir.Draft.length_blocks_write state.draft _).symm
  | declare name type => exact Nat.le_of_eq (Ir.Draft.length_blocks_reserve _ name type).symm
  | receive => exact Nat.le_of_eq (length_blocks_writeAll _ _).symm
  | enter | leave | receiveOne => exact Nat.le_refl _

/-- No instruction is taken away. -/
theorem Edit.instructions (edit : Edit context events state later)
    (anchored : state.draft.Anchored) :
    state.draft.function.instructions ⊆ later.draft.function.instructions := by
  have write (code : List Ir.Instruction) : state.draft.function.instructions ⊆
      (writeAll state.draft code).function.instructions :=
    fun _ member => (instructions_writeAll anchored code).mem_iff.mpr
      (List.mem_append_left _ member)
  cases edit with
  | quiet quiet => rw [quiet.instructions]; exact List.Subset.refl _
  | write | callFunction | callBuiltin => exact write [_]
  | declare name type => exact fun _ => Ir.Draft.mem_instructions_reserve name type
  | receive => exact write _
  | enter | leave | receiveOne => exact List.Subset.refl _

theorem Edit.locals (edit : Edit context events state later) :
    later.draft.function.locals.map Ir.LocalSlot.name =
      state.draft.function.locals.map Ir.LocalSlot.name ++ Event.names events := by
  cases edit with
  | quiet quiet => rw [quiet.locals]; exact (List.append_nil _).symm
  | receive => rw [locals_writeAll]; exact (List.append_nil _).symm
  | write | callFunction | callBuiltin | enter | leave | receiveOne => exact (List.append_nil _).symm
  | declare name type => exact List.map_append

/-- New blocks get labels from a fixed list. -/
theorem Edit.labels (edit : Edit context events state later) :
    later.draft.function.labels ⊆ state.draft.function.labels ++ Ir.blockLabels := by
  have same {function : Ir.Function} (labels : function.labels = state.draft.function.labels) :
      function.labels ⊆ state.draft.function.labels ++ Ir.blockLabels := by
    rw [labels]
    exact List.subset_append_left _ _
  cases edit with
  | quiet quiet => exact quiet.labels
  | write | callFunction | callBuiltin => exact same (Ir.Draft.labels_write state.draft _)
  | declare name type => exact same (Ir.Draft.labels_reserve state.draft name type)
  | receive => exact same (labels_writeAll _ _)
  | enter | leave | receiveOne => exact same rfl

theorem Edit.name (edit : Edit context events state later) :
    later.module.name = state.module.name := by
  cases edit with
  | quiet quiet => exact quiet.name
  | callBuiltin call builtin external => exact State.name_imported state external
  | write | declare | callFunction | enter | leave | receiveOne | receive => rfl

theorem Edit.functions (edit : Edit context events state later) :
    later.module.functions = state.module.functions := by
  cases edit with
  | quiet quiet => exact quiet.functions
  | callBuiltin call builtin external => exact (State.progress_imported state external).1
  | write | declare | callFunction | enter | leave | receiveOne | receive => rfl

theorem Edit.receives (edit : Edit context events state later) :
    ∀ reception ∈ Event.receptions events, context.Receives reception := by
  cases edit with
  | receiveOne targets value few =>
      intro other isOther several
      obtain rfl := List.mem_singleton.mp isOther
      exact absurd several (Nat.not_le.mpr few)
  | receive call targets signature _ _ _ _ resolved count _ _ _ aims =>
      intro other isOther several
      obtain rfl := List.mem_singleton.mp isOther
      exact ⟨_, _, signature, rfl, resolved, count.trans aims.length_eq⟩
  | quiet | enter | leave | write | declare | callFunction | callBuiltin =>
      simp [Event.receptions, Event.reception?]

namespace Trace

theorem trans (first : Trace context events state middle) (second : Trace context more middle later) :
    Trace context (events ++ more) state later := by
  induction first with
  | refl => exact second
  | edit edit _ ih =>
      rw [List.append_assoc]
      exact .edit edit (ih second)

/-- More edits that answer nothing. -/
theorem trans_silent (first : Trace context events state middle)
    (second : Trace context [] middle later) : Trace context events state later := by
  have whole := first.trans second
  rwa [List.append_nil] at whole

theorem of_quiet (quiet : Quiet state later) : Trace context [] state later :=
  Edit.trace (.quiet quiet)

theorem anchored (trace : Trace context events state later) (anchored : state.draft.Anchored) :
    later.draft.Anchored := by
  induction trace with
  | refl => exact anchored
  | edit edit _ ih => exact ih (edit.anchored anchored)

theorem blocks (trace : Trace context events state later) :
    state.draft.function.blocks.length ≤ later.draft.function.blocks.length := by
  induction trace with
  | refl => exact Nat.le_refl _
  | edit edit _ ih => exact Nat.le_trans edit.blocks ih

theorem instructions (trace : Trace context events state later) (anchored : state.draft.Anchored) :
    state.draft.function.instructions ⊆ later.draft.function.instructions := by
  induction trace with
  | refl => exact List.Subset.refl _
  | edit edit _ ih =>
      exact List.Subset.trans (edit.instructions anchored) (ih (edit.anchored anchored))

/-- A function has a slot for each variable that has been declared, and of its name. -/
theorem locals (trace : Trace context events state later) :
    later.draft.function.locals.map Ir.LocalSlot.name =
      state.draft.function.locals.map Ir.LocalSlot.name ++ Event.names events := by
  induction trace with
  | refl => exact (List.append_nil _).symm
  | edit edit _ ih => rw [ih, edit.locals, Event.names_append, List.append_assoc]

theorem labels (trace : Trace context events state later) :
    later.draft.function.labels ⊆ state.draft.function.labels ++ Ir.blockLabels := by
  induction trace with
  | refl => exact List.subset_append_left _ _
  | edit edit _ ih =>
      exact List.Subset.trans ih
        (List.append_subset.mpr ⟨edit.labels, List.subset_append_right _ _⟩)

theorem name (trace : Trace context events state later) : later.module.name = state.module.name := by
  induction trace with
  | refl => rfl
  | edit edit _ ih => rw [ih, edit.name]

theorem functions (trace : Trace context events state later) :
    later.module.functions = state.module.functions := by
  induction trace with
  | refl => rfl
  | edit edit _ ih => rw [ih, edit.functions]

theorem receives (trace : Trace context events state later) :
    ∀ reception ∈ Event.receptions events, context.Receives reception := by
  induction trace with
  | refl => simp [Event.receptions]
  | edit edit _ ih =>
      rw [Event.receptions_append]
      exact List.forall_mem_append.mpr ⟨edit.receives, ih⟩

/-- Every call of the source is written once, and no other calls are. -/
theorem written (trace : Trace context events state later) (anchored : state.draft.Anchored) :
    ∃ calls, later.draft.function.calls.Perm (state.draft.function.calls ++ calls) ∧
      List.Forall₂ (context.Writes later.draft.function.instructions) (Event.calls events) calls := by
  induction trace with
  | refl state =>
      refine ⟨[], ?_, .nil⟩
      rw [List.append_nil]
  | @edit events more state middle later edit rest ih =>
      obtain ⟨first, firstCalls, firstWrites⟩ := edit.written anchored
      have still := edit.anchored anchored
      obtain ⟨others, otherCalls, otherWrites⟩ := ih still
      have grow := List.Subset.trans (edit.instructions anchored) (rest.instructions still)
      refine ⟨first ++ others, ?_, ?_⟩
      · rw [← List.append_assoc]
        exact otherCalls.trans (firstCalls.append_right _)
      · rw [Event.calls_append]
        exact List.rel_append (firstWrites.imp fun _ _ => .mono grow) otherWrites

end Trace

end Lowering

end YulLowering
