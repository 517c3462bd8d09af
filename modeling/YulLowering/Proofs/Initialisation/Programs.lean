import YulLowering.Proofs.Initialisation.Statements
import YulLowering.Proofs.Programs

/-!
# Programs write before they read

Parameters are copied into their slots and return variables are set to zero before the first statement, and
control reaches the end of the body where all return variables are visible. So a lowered function writes
each local slot before it reads it, on every path of control, if every declaration of its definition has an
initialiser that reads none of the names it introduces.
-/

namespace YulLowering

namespace Lowering

variable {context : Context} {known : List (List Ir.LocalId)} {state : State}

/-- A variable is declared and stored to, with nothing but code in between. -/
theorem State.Sound.introduce (sound : state.Sound known) (all : state.AllWritten known)
    {name : String} {type : Ir.ValueType} {last : State}
    (continues : Continues known (state.declared name type) known last)
    (written : last.draft.HasWritten known state.draft.nextLocal) :
    last.Sound known ∧ last.AllWritten known := by
  have scope : last.scope.slots = state.scope.slots ++ [state.draft.nextLocal] := by
    rw [continues.scope]
    simp [State.declared, Scope.bind, Scope.slots]
  constructor
  · refine ⟨continues.secures, continues.present, ?_⟩
    rw [continues.loops, scope]
    intro frame enclosing exit
    obtain ⟨needed, isKnown, within⟩ := sound.loops frame enclosing exit
    exact ⟨needed, isKnown, List.subset_append_of_subset_left _ within⟩
  · intro slot member
    rw [scope] at member
    rcases List.mem_append.mp member with old | new
    · exact continues.keeps slot ((all slot old).reserve name type)
    · obtain rfl := List.mem_singleton.mp new
      exact written

theorem State.Sound.declared (sound : state.Sound known) (name : String) (type : Ir.ValueType) :
    Continues known (state.declared name type) known (state.declared name type) :=
  .refl (Ir.Draft.secures_reserve sound.secures name type) sound.present

theorem bindReturns_written (names : List TypedName) (types : List Ir.ValueType)
    (sound : state.Sound known) (all : state.AllWritten known) :
    (bindReturns names types).Yields state fun _ later =>
      later.Sound known ∧ later.AllWritten known := by
  induction names generalizing state types with
  | nil => exact .pure ⟨sound, all⟩
  | cons head names ih =>
      cases types with
      | nil => exact .pure ⟨sound, all⟩
      | cons type types =>
          apply Step.Yields.declare_bind
          apply Step.Yields.write_bind
          apply Step.Yields.modify_bind
          rw [Ir.Draft.const_eq, Ir.Draft.store_eq]
          have cleared := (sound.declared head.name type).write
            (.const ((state.declared head.name type).draft.next type) 0) fun _ loads => by cases loads
          obtain ⟨stored, written⟩ := cleared.store state.draft.nextLocal
            ((state.declared head.name type).draft.next type)
          obtain ⟨stillSound, stillAll⟩ := sound.introduce all stored written
          apply Step.Yields.bind (ih types stillSound stillAll)
          intro bindings later prepared
          exact .pure prepared

theorem State.Sound.bound (sound : state.Sound known) (all : state.AllWritten known)
    (names : List TypedName) (values : List Ir.Value) :
    (state.bound names values).Sound known ∧ (state.bound names values).AllWritten known := by
  obtain ⟨-, bound⟩ := State.bound_keeps
    (motive := fun _ state => state.Sound known ∧ state.AllWritten known)
    (fun {state value _} name holds => by
      obtain ⟨sound, all⟩ := holds
      obtain ⟨stored, written⟩ := (sound.declared name value.type).store state.draft.nextLocal value
      exact sound.introduce all stored written)
    names values ⟨sound, all⟩
  exact bound

/-- At first there is one block, of which nothing is known, and there are no variables. -/
theorem Progress.sound_begin (progress : Progress) (name : String) (signature : Signature) :
    (progress.begin name signature).Sound [[]] ∧
      (progress.begin name signature).AllWritten [[]] := by
  constructor
  · refine ⟨⟨rfl, ?_⟩, rfl, ?_⟩
    · intro id block written found isKnown
      obtain ⟨_ | index⟩ := id
      · cases found
        exact ⟨.nil written, fun target leads => by cases leads⟩
      · cases found
    · intro frame enclosing
      cases enclosing
  · intro slot member
    cases member

theorem secures_writeAll {draft : Ir.Draft} (secures : draft.function.Secures known)
    (code : List Ir.Instruction)
    (reads : ∀ instruction ∈ code, ∀ slot, instruction.loaded? = some slot →
      draft.HasWritten known slot) : (writeAll draft code).function.Secures known := by
  induction code generalizing draft with
  | nil => exact secures
  | cons instruction code ih =>
      obtain ⟨here, others⟩ := List.forall_mem_cons.mp reads
      exact ih (Ir.Draft.secures_write secures instruction here)
        fun other member slot loads => (others other member slot loads).write instruction

/-- Copies read their sources. -/
theorem exists_source_of_loaded? {transfers : List Transfer} {supply : Nat}
    {instruction : Ir.Instruction} {slot : Ir.LocalId}
    (member : instruction ∈ transferCode supply transfers)
    (loads : instruction.loaded? = some slot) : ∃ transfer ∈ transfers, transfer.source = .ofLocal slot := by
  obtain ⟨transfer, isTransfer, value, -, rfl | rfl⟩ := mem_transferCode member
  · refine ⟨transfer, isTransfer, ?_⟩
    cases source : transfer.source <;> simp_all [Ir.Instruction.loaded?]
  · cases loads

/-- At the end of a function its return variables are read and nothing else. -/
theorem exists_return_of_loaded? {returns : List Binding} {supply : Nat} {slots : List Ir.GlobalId}
    {instruction : Ir.Instruction} {slot : Ir.LocalId}
    (member : instruction ∈ returnCode supply slots returns)
    (loads : instruction.loaded? = some slot) : ∃ binding ∈ returns, binding.slot = slot := by
  cases returns with
  | nil => cases member
  | cons first others =>
      rcases List.mem_cons.mp member with rfl | member
      · cases loads
        exact ⟨first, List.mem_cons_self, rfl⟩
      · obtain ⟨transfer, isTransfer, source⟩ := exists_source_of_loaded? member loads
        obtain ⟨pair, paired, rfl⟩ := List.mem_map.mp isTransfer
        cases source
        exact ⟨pair.1, List.mem_cons_of_mem _ (List.of_mem_zip paired).1, rfl⟩

theorem Origin.writesBeforeReads {last : Progress} {definition : Definition}
    {function : Ir.Function} (origin : Origin context last definition function)
    {arity : String → Option Nat} (proper : Statement.areProper arity false definition.body = true) :
    function.WritesBeforeReads := by
  obtain ⟨begun, begunAll⟩ := origin.before.sound_begin definition.name origin.signature
  obtain ⟨started, startedAll⟩ := begun.bound begunAll definition.parameters
    (origin.before.begin definition.name origin.signature).draft.function.parameters
  obtain ⟨prepared, preparedAll⟩ :=
    (bindReturns_written definition.returns origin.signature.results started startedAll).holds _ _
      origin.run.binds
  have keeps : (Statement.lowerEach context definition.body).Keeps :=
    keeps_statements definition.body proper
  obtain ⟨more, proceeds, -⟩ :=
    (keeps.inBlock (prepared.safe preparedAll)).holds _ _ origin.run.part.after
  have all := proceeds.safe.here origin.isOpen.isClosed
  have secures : function.Secures more := by
    rw [origin.function_eq]
    apply Ir.Draft.secures_close
    · apply secures_writeAll proceeds.safe.secures
      intro instruction member slot loads
      obtain ⟨binding, isReturn, rfl⟩ := exists_return_of_loaded? member loads
      apply all
      apply proceeds.scope.slots
      apply List.mem_map_of_mem
      rw [origin.run.reserved.scope]
      exact List.mem_append_right _ isReturn
    · intro target leads
      cases leads
  have first : more[0]? = some [] := Ir.getElem?_of_prefix proceeds.grow rfl
  refine secures.writesBeforeReads ?_
  rw [origin.grows.entry]
  exact first

end Lowering

/-- Whether every variable declaration of a program has an initialiser, and one that reads none of the
names it introduces. How many arguments calls have does not matter. -/
def Block.isInitialised (program : Block) : Bool :=
  match program.definitions with
  | .ok definitions =>
    definitions.all fun definition => Statement.areProper (fun _ => none) false definition.body
  | .error _ => true

/-- Where every declaration has an initialiser that reads none of the names it introduces, no function of
the lowered module reads a local slot on any path before it has written the slot. -/
theorem Block.writesBeforeReads_of_toModule {dialect : Dialect} {types : Lowering.TypeNames}
    {name : String} {program : Block} {module : Ir.Module}
    (lowered : program.toModule dialect types name = .ok module)
    (initialised : program.isInitialised = true) :
    ∀ function ∈ module.functions, function.WritesBeforeReads := by
  obtain ⟨compiled⟩ := Lowering.toModule_inv lowered
  intro function member
  obtain ⟨index, bound, rfl⟩ := List.mem_iff_getElem.mp member
  have lengths := compiled.origins.length_eq
  obtain ⟨origin⟩ := compiled.origins.get (by omega) bound
  rw [Block.isInitialised, compiled.areDefinitions] at initialised
  exact origin.writesBeforeReads (List.all_eq_true.mp initialised _ (List.getElem_mem _))

/-- Variables that are declared in a loop, hidden and used behind a loop exit, with two of them taking the
results of one call. -/
def hiddenVariables : Block :=
  [.definition "pair" [⟨"a", ""⟩] [⟨"r", ""⟩, ⟨"s", ""⟩] [.assignment ["s"] (.identifier "a")],
    .definition "f" [⟨"n", ""⟩] [⟨"t", ""⟩]
      [.loop [.declaration [⟨"i", ""⟩] (some (.identifier "n"))] (.identifier "i")
        [.assignment ["i"] (.identifier "t")]
        [.declaration [⟨"x", ""⟩, ⟨"y", ""⟩] (some (.call "pair" [.identifier "i"])),
          .conditional (.identifier "x") [.breakLoop, .assignment ["t"] (.identifier "y")],
          .switch (.identifier "y")
            [⟨some (.number "1" ""), [.continueLoop]⟩,
              ⟨none, [.declaration [⟨"x", ""⟩] (some (.identifier "y")),
                .assignment ["t"] (.identifier "x")]⟩]]]]

theorem Block.writesBeforeReads_of_toModule_hiddenVariables :
    ∃ module, hiddenVariables.toModule (.empty .strict) .standard "m" = .ok module ∧
      ∀ function ∈ module.functions, function.WritesBeforeReads := by
  have isOk : (hiddenVariables.toModule (.empty .strict) .standard "m").isOk = true := by
    decide +kernel
  have initialised : hiddenVariables.isInitialised = true := by decide +kernel
  cases lowered : hiddenVariables.toModule (.empty .strict) .standard "m" with
  | error error =>
      rw [lowered] at isOk
      cases isOk
  | ok module => exact ⟨module, rfl, Block.writesBeforeReads_of_toModule lowered initialised⟩

end YulLowering
