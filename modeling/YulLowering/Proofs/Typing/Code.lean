import YulLowering.Proofs.Outcomes
import YulLowering.Proofs.SlotDiscipline
import YulLowering.Proofs.Spilling
import YulLowering.Proofs.Typing.Source

/-!
# Well-typed code

Stores have the types of their slots, and calls pass arguments of the types that their callees declare. Where
the results of a call go to several variables, these have the types of the results. What callees declare is
known from the signatures while a program is lowered, and from the functions of the module afterwards.
-/

namespace YulLowering

namespace Ir

/-- What a value of a type is carried as: nothing is carried for `void`. -/
def ValueType.carried? (type : ValueType) : Option ValueType :=
  if type.isVoid then none else some type

/-- What something that is called declares. -/
structure Interface where
  parameters : List ValueType
  result : ValueType
deriving DecidableEq, Repr, Inhabited

/-- Stores have the types of their slots, and calls agree with what `declares` tells of their callees. -/
def Instruction.WellTyped (declares : Callee → Interface → Prop) (locals : List LocalSlot) :
    Instruction → Prop
  | store (.ofLocal slot) value =>
    ∃ declared, locals[slot.index]? = some declared ∧ value.type = declared.type
  | call dest callee arguments =>
    ∃ interface, declares callee interface ∧ arguments.map Value.type = interface.parameters ∧
      dest.map Value.type = interface.result.carried?
  | const _ _ | reserve _ _ | load _ _ | store (.ofGlobal _) _ | testNonZero _ _ => True

/-- More slots and more declarations do no harm. -/
theorem Instruction.WellTyped.mono {declares more : Callee → Interface → Prop}
    {locals others : List LocalSlot} {instruction : Instruction}
    (wellTyped : instruction.WellTyped declares locals)
    (weaken : ∀ callee interface, declares callee interface → more callee interface)
    (grow : locals <+: others) : instruction.WellTyped more others := by
  cases instruction with
  | const | reserve | load | testNonZero => trivial
  | store place value =>
      cases place with
      | ofGlobal => trivial
      | ofLocal slot =>
          obtain ⟨declared, found, typed⟩ := wellTyped
          exact ⟨declared, getElem?_of_prefix grow found, typed⟩
  | call dest callee arguments =>
      obtain ⟨interface, isDeclared, agree⟩ := wellTyped
      exact ⟨interface, weaken callee interface isDeclared, agree⟩

end Ir

namespace Lowering

/-- What is known of things that are called. -/
structure Promises where
  declares : Ir.Callee → Ir.Interface → Prop
  /-- The types of all results of a function, in order. -/
  returns : Ir.FunctionId → List Ir.ValueType → Prop

/-- All that is known is still known. -/
structure Promises.Within (promises more : Promises) : Prop where
  declares : ∀ callee interface, promises.declares callee interface → more.declares callee interface
  returns : ∀ id types, promises.returns id types → more.returns id types

theorem Promises.Within.refl (promises : Promises) : promises.Within promises :=
  ⟨fun _ _ => id, fun _ _ => id⟩

/-- A plain instruction touches no shared slot. Where a call has several results, the variables for them
have their types. -/
def Segment.WellTyped (promises : Promises) (locals : List Ir.LocalSlot) : Segment → Prop
  | plain instruction =>
    instruction.globals = [] ∧ instruction.WellTyped promises.declares locals
  | receive result callee arguments first others =>
    (Ir.Instruction.call (some result) (.function callee) arguments).WellTyped promises.declares locals ∧
      result.type = first.type ∧
      (∀ target ∈ first :: others, ∃ declared, locals[target.slot.index]? = some declared ∧
        target.type = declared.type) ∧
      promises.returns callee ((first :: others).map Binding.type)

theorem Segment.WellTyped.mono {promises more : Promises} {locals others : List Ir.LocalSlot}
    {segment : Segment} (wellTyped : segment.WellTyped promises locals) (within : promises.Within more)
    (grow : locals <+: others) : segment.WellTyped more others := by
  cases segment with
  | plain instruction => exact wellTyped.imp_right fun typed => typed.mono within.declares grow
  | receive result callee arguments first rest =>
      obtain ⟨call, typed, targets, returns⟩ := wellTyped
      refine ⟨call.mono within.declares grow, typed, ?_, within.returns _ _ returns⟩
      intro target member
      obtain ⟨declared, found, same⟩ := targets target member
      exact ⟨declared, Ir.getElem?_of_prefix grow found, same⟩

/-- Code all of whose parts are well typed. -/
def WellTypedCode (promises : Promises) (locals : List Ir.LocalSlot) (code : List Ir.Instruction) :
    Prop :=
  ∃ segments : List Segment, code = segments.flatMap Segment.code ∧
    ∀ segment ∈ segments, segment.WellTyped promises locals

namespace WellTypedCode

variable {promises : Promises} {locals : List Ir.LocalSlot} {code : List Ir.Instruction}

theorem nil : WellTypedCode promises locals [] :=
  ⟨[], rfl, by simp⟩

theorem append (typed : WellTypedCode promises locals code) {segment : Segment}
    (more : segment.WellTyped promises locals) :
    WellTypedCode promises locals (code ++ segment.code) := by
  obtain ⟨segments, rfl, all⟩ := typed
  refine ⟨segments ++ [segment], by simp, ?_⟩
  intro other member
  rcases List.mem_append.mp member with old | new
  · exact all other old
  · obtain rfl := List.mem_singleton.mp new
    exact more

theorem mono {more : Promises} {others : List Ir.LocalSlot}
    (typed : WellTypedCode promises locals code) (within : promises.Within more)
    (grow : locals <+: others) : WellTypedCode more others code := by
  obtain ⟨segments, rfl, all⟩ := typed
  exact ⟨segments, rfl, fun segment member => (all segment member).mono within grow⟩

end WellTypedCode

/-- All blocks of a function under construction hold well-typed code. -/
def WellTypedDraft (promises : Promises) (draft : Ir.Draft) : Prop :=
  ∀ id block, draft.function.block? id = some block →
    WellTypedCode promises draft.function.locals block.instructions

namespace WellTypedDraft

variable {promises : Promises} {draft : Ir.Draft}

theorem mono {more : Promises} (typed : WellTypedDraft promises draft)
    (within : promises.Within more) : WellTypedDraft more draft :=
  fun id block found => (typed id block found).mono within (List.prefix_refl _)

theorem writeAll (typed : WellTypedDraft promises draft) {segment : Segment}
    (more : segment.WellTyped promises draft.function.locals) :
    WellTypedDraft promises (writeAll draft segment.code) := by
  intro id block found
  rw [locals_writeAll]
  rw [block?_writeAll] at found
  split at found
  · obtain ⟨before, foundBefore, rfl⟩ := Option.map_eq_some_iff.mp found
    exact (typed id before foundBefore).append more
  · exact typed id block found

theorem reserve (typed : WellTypedDraft promises draft) (name : String) (type : Ir.ValueType) :
    WellTypedDraft promises (draft.reserve name type).2 := by
  intro id block found
  have grow : draft.function.locals <+: (draft.reserve name type).2.function.locals :=
    List.prefix_append _ _
  rw [Ir.Draft.block?_reserve] at found
  split at found
  · obtain ⟨before, foundBefore, rfl⟩ := Option.map_eq_some_iff.mp found
    have plain : (Segment.plain (.reserve draft.nextLocal type)).WellTyped promises
        (draft.reserve name type).2.function.locals := ⟨rfl, trivial⟩
    exact ((typed id before foundBefore).mono (.refl _) grow).append plain
  · exact (typed id block found).mono (.refl _) grow

theorem close (typed : WellTypedDraft promises draft) (terminator : Ir.Terminator) :
    WellTypedDraft promises (draft.close terminator) := by
  intro id block found
  rw [Ir.Draft.block?_close] at found
  split at found
  · obtain ⟨before, foundBefore, rfl⟩ := Option.map_eq_some_iff.mp found
    exact typed id before foundBefore
  · exact typed id block found

theorem newBlock (typed : WellTypedDraft promises draft) (label : String) :
    WellTypedDraft promises (draft.newBlock label).2 := by
  intro id block found
  rw [Ir.Draft.block?_newBlock] at found
  split at found
  · cases found
    exact .nil
  · exact typed id block found

end WellTypedDraft

/-! ## States -/

variable {context : Context} {state : State}

/-- What is known while a program is lowered: the signatures of its functions, and the builtins that the
module has declared. -/
def Context.promises (context : Context) (module : Ir.Module) : Promises where
  declares
    | .function id, interface => ∃ signature ∈ context.signatures.all, signature.id = id ∧
        interface = ⟨signature.parameters, signature.resultType⟩
    | .builtin name _, interface => ∃ external, module.external? name = some external ∧
        interface = ⟨external.parameters, external.results.head?.getD .void⟩
  returns id types := ∃ signature ∈ context.signatures.all, signature.id = id ∧
    signature.results = types

theorem Context.promises_within {module later : Ir.Module}
    (grow : module.externals <+: later.externals) :
    (context.promises module).Within (context.promises later) where
  declares := by
    intro callee interface declared
    cases callee with
    | function id => exact declared
    | builtin name effects =>
        obtain ⟨external, found, same⟩ := declared
        exact ⟨external, external?_of_prefix grow found, same⟩
  returns := fun _ _ => id

/-- A state in which all code that has been written is well typed. -/
structure State.WellTyped (context : Context) (state : State) : Prop where
  code : WellTypedDraft (context.promises state.module) state.draft
  scope : ∀ binding ∈ state.scope.bindings, binding.DeclaredIn state.draft.function
  pooled : state.progress.Pooled
  sources : context.Sources state.module

namespace State.WellTyped

/-- A variable in scope has a slot of its type. -/
theorem declared? (typed : state.WellTyped context) {binding : Binding}
    (inScope : binding ∈ state.scope.bindings) :
    ∃ declared, state.draft.function.locals[binding.slot.index]? = some declared ∧
      binding.type = declared.type :=
  ⟨_, typed.scope binding inScope, rfl⟩

theorem writeAll (typed : state.WellTyped context) {segment : Segment}
    (more : segment.WellTyped (context.promises state.module) state.draft.function.locals) :
    ({ state with draft := Lowering.writeAll state.draft segment.code } : State).WellTyped context where
  code := typed.code.writeAll more
  scope := by
    intro binding inScope
    refine (typed.scope binding inScope).mono ?_
    exact (locals_writeAll state.draft segment.code).symm ▸ List.prefix_refl _
  pooled := typed.pooled
  sources := typed.sources

theorem write (typed : state.WellTyped context) {instruction : Ir.Instruction}
    (isPlain : instruction.globals = [])
    (more : instruction.WellTyped (context.promises state.module).declares
      state.draft.function.locals) :
    ({ state with draft := state.draft.write instruction } : State).WellTyped context := by
  have segment : (Segment.plain instruction).WellTyped (context.promises state.module)
      state.draft.function.locals := ⟨isPlain, more⟩
  exact typed.writeAll segment

theorem close (typed : state.WellTyped context) (terminator : Ir.Terminator) :
    ({ state with draft := state.draft.close terminator } : State).WellTyped context :=
  ⟨typed.code.close terminator, typed.scope, typed.pooled, typed.sources⟩

theorem moveTo (typed : state.WellTyped context) (block : Ir.BlockId) :
    ({ state with draft := state.draft.moveTo block } : State).WellTyped context :=
  ⟨typed.code, typed.scope, typed.pooled, typed.sources⟩

theorem fallThrough (typed : state.WellTyped context) (target : Ir.BlockId) :
    ({ state with draft := state.draft.fallThrough target } : State).WellTyped context := by
  unfold Ir.Draft.fallThrough
  cases state.draft.isClosed with
  | true => exact typed
  | false => exact typed.close (.jump target)

theorem newBlock (typed : state.WellTyped context) (label : String) :
    ({ state with draft := (state.draft.newBlock label).2 } : State).WellTyped context :=
  ⟨typed.code.newBlock label, typed.scope, typed.pooled, typed.sources⟩

theorem declared (typed : state.WellTyped context) (name : String) (type : Ir.ValueType) :
    (state.declared name type).WellTyped context where
  code := typed.code.reserve name type
  scope := by
    intro binding member
    rcases List.mem_append.mp member with old | new
    · exact (typed.scope binding old).mono (List.prefix_append _ _)
    · obtain rfl := List.mem_singleton.mp new
      show ((state.draft.function.locals ++ [_])[state.draft.function.locals.length]?) = _
      rw [List.getElem?_concat_length]
      rfl
  pooled := typed.pooled
  sources := typed.sources

/-- Variables may be hidden. -/
theorem hide (typed : state.WellTyped context) {scope : Scope}
    (within : scope.bindings ⊆ state.scope.bindings) (loops : Loops) :
    ({ state with scope := scope, loops := loops } : State).WellTyped context :=
  ⟨typed.code, fun binding inScope => typed.scope binding (within inScope), typed.pooled,
    typed.sources⟩

theorem reserved (typed : state.WellTyped context) (count : Nat) :
    (state.reserved count).WellTyped context := by
  have same : (state.reserved count).module.externals = state.module.externals := by
    rw [State.reserved, SpillSlots.reserve, extendBy_eq]
  refine ⟨typed.code.mono (Context.promises_within ?_), typed.scope,
    State.pooled_reserved typed.pooled count, ?_⟩
  · exact same.symm ▸ List.prefix_refl _
  · unfold Context.Sources
    rw [same]
    exact typed.sources

/-- A builtin that is called is declared, either now or by an earlier call of the same name. -/
theorem imported (typed : state.WellTyped context) {name : String} {builtin : Builtin}
    {external : Ir.External} (resolved : context.resolveCall name = .ok (.builtin builtin))
    (isExternal : context.external builtin = .ok external) :
    (state.imported external).WellTyped context ∧
      (state.imported external).module.external? external.name = some external := by
  obtain ⟨sources, found⟩ := typed.sources.imported resolved isExternal
  have code := typed.code.mono (context.promises_within (state.externals_imported external))
  refine ⟨⟨code, typed.scope, ?_, sources⟩, found⟩
  obtain ⟨-, globals⟩ := State.progress_imported state external
  have pooled := typed.pooled
  unfold Progress.Pooled State.progress at pooled ⊢
  dsimp only at pooled ⊢
  rw [globals]
  exact pooled

end State.WellTyped

end Lowering

end YulLowering
