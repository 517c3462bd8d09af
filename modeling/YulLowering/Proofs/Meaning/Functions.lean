import YulLowering.Proofs.Meaning.Loops
import YulLowering.Proofs.SlotDiscipline
import YulLowering.Proofs.Spilling

/-!
# Functions on the machine

A function that is called copies its arguments into slots, sets its return variables to zero and runs its
body. At the end the first return variable becomes the direct result, and the others go to spill slots,
where the caller finds them. All of this happens within the blocks that a run of moves has written.
-/

namespace YulLowering

namespace Lowering

open Ir (Frame Caller Config Machine)

variable {World : Type} {machine : Machine World} {lenient : Bool} {count : Nat}
  {context : Context} {arity : String → Option Nat} {calls : Calls World}
  {fuel : Nat} {finished : Ir.Function} {before after : State} {frame : Frame} {env : Env}

/-! ## Parameters and return variables -/

theorem Env.declare_cons (env : Env) (name : String) (names : List String) (content : Option Nat)
    (contents : List (Option Nat)) :
    env.declare (name :: names) (content :: contents) =
      Env.declare ((name, content) :: env) names contents := by
  simp [Env.declare]

/-- A new variable has the value that is stored to its slot. -/
theorem steps_stored {name : String} {type : Ir.ValueType} {draft : Ir.Draft} {value : Ir.Value}
    {content : Nat}
    (tracks : before.scope.Tracks lenient before.draft.function.locals.length env frame)
    (locals : draft.function.locals = (before.declared name type).draft.function.locals)
    (stands : frame.At finished draft)
    (grows : (draft.write (.store (.ofLocal before.draft.nextLocal) value)).function.Grows finished)
    (held : frame.values value.id = some content) (callers : List Caller)
    (globals : Ir.GlobalId → Nat) (world : World) :
    ∃ later, machine.Steps (.running frame callers globals world)
        (.running later callers globals world) ∧ later.values = frame.values ∧
      Faces lenient finished { before.declared name type with
        draft := draft.write (.store (.ofLocal before.draft.nextLocal) value) }
        ((name, some content) :: env) later := by
  have size : draft.function.locals.length = before.draft.function.locals.length + 1 := by
    rw [locals]
    simp [State.declared]
  have growsDraft : draft.function.Grows finished :=
    (Ir.Draft.grows_write stands.ahead.isOpen _).trans grows
  have reserved : (frame.locals before.draft.nextLocal).isSome := by
    apply stands.isSome_locals growsDraft
    rw [size]
    exact Nat.lt_succ_self _
  obtain ⟨steps, standsLater⟩ :=
    machine.step_store callers globals world stands grows reserved held
  refine ⟨_, steps, rfl, standsLater, ?_⟩
  have elsewhere : frame.Agrees (frame.advance.set before.draft.nextLocal (some content))
      before.draft.function.locals.length := by
    intro slot below
    rw [Frame.locals_set, if_neg]
    · rfl
    · rintro rfl
      exact Nat.lt_irrefl _ below
  refine (tracks.of_agrees elsewhere (Nat.le_refl _)).bind ⟨rfl, ?_, by simp⟩ (Nat.le_refl _) ?_
  · intro other isContent
    cases isContent
    simp
  · show before.draft.function.locals.length < draft.function.locals.length
    omega

/-- Parameters are copied into slots. -/
theorem steps_bound {contents : Ir.ValueId → Option Nat} (names : List TypedName)
    {values : List Ir.Value} {arguments : List Nat}
    (held : List.Forall₂ (fun value argument => contents value.id = some argument) values arguments)
    (size : names.length = values.length) (areContents : frame.values = contents)
    (faces : Faces lenient finished before env frame)
    (grows : (before.bound names values).draft.function.Grows finished) (begins : before.Begins)
    (callers : List Caller) (globals : Ir.GlobalId → Nat) (world : World) :
    ∃ later, machine.Steps (.running frame callers globals world)
        (.running later callers globals world) ∧
      Faces lenient finished (before.bound names values)
        (env.declare (names.map TypedName.name) (arguments.map some)) later := by
  induction held generalizing names before env frame with
  | nil =>
      obtain rfl := List.length_eq_zero_iff.mp size
      exact ⟨frame, .refl, faces⟩
  | @cons value argument values arguments here rest ih =>
      obtain ⟨⟨name, typeName⟩, names, rfl⟩ := List.exists_cons_of_length_eq_add_one size
      let copied := (before.declared name value.type).stored before.draft.nextLocal value
      have beginsCopied : copied.Begins := begins.copied name value
      have growsCopied : copied.draft.function.Grows finished :=
        (beginsCopied.grows names values).trans grows
      have declaredOpen : (before.declared name value.type).draft.IsOpen :=
        Ir.Draft.isOpen_reserve begins.isOpen name value.type
      have growsDeclared : (before.declared name value.type).draft.function.Grows finished :=
        (Ir.Draft.grows_write declaredOpen _).trans growsCopied
      obtain ⟨between, reserves, standsBetween, kept, agrees⟩ :=
        machine.steps_reserve callers globals world faces.stands growsDeclared
      have hereBetween : between.values value.id = some argument := by
        rw [kept, areContents]
        exact here
      obtain ⟨next, stores, keptNext, facesNext⟩ := steps_stored
        (faces.tracks.of_agrees agrees (Nat.le_refl _)) rfl standsBetween growsCopied hereBetween
        callers globals world
      have areContentsNext : next.values = contents := by
        rw [keptNext, kept, areContents]
      obtain ⟨later, steps, facesLater⟩ := ih names (Nat.succ.inj size) areContentsNext facesNext
        grows beginsCopied
      refine ⟨later, (reserves.trans stores).trans steps, ?_⟩
      rw [List.map_cons, List.map_cons, Env.declare_cons]
      exact facesLater

/-- Return variables start at zero. -/
theorem steps_bindReturns (context : Context) {names : List TypedName} {types : List Ir.ValueType}
    {returns : List Binding}
    (lowered : (bindReturns names types).after before = (.ok returns, after))
    (size : names.length = types.length) (faces : Faces lenient finished before env frame)
    (grows : after.draft.function.Grows finished) (callers : List Caller)
    (globals : Ir.GlobalId → Nat) (world : World) :
    ∃ later, machine.Steps (.running frame callers globals world)
        (.running later callers globals world) ∧
      Faces lenient finished after
        (env.declare (names.map TypedName.name) (names.map fun _ => some 0)) later := by
  induction names generalizing before env frame types returns with
  | nil =>
      obtain rfl := List.length_eq_zero_iff.mp size.symm
      cases lowered
      exact ⟨frame, .refl, faces⟩
  | cons head names ih =>
      obtain ⟨name, typeName⟩ := head
      obtain ⟨type, types, rfl⟩ := List.exists_cons_of_length_eq_add_one size.symm
      let declared := before.declared name type
      let zero : Ir.Value := declared.draft.next type
      let cleared := declared.draft.write (.const zero 0)
      let stored := cleared.write (.store (.ofLocal before.draft.nextLocal) zero)
      rw [bindReturns, Step.after_bind, Step.after_declare] at lowered
      dsimp only at lowered
      rw [Step.after_bind, Step.after_write, Ir.Draft.const_eq] at lowered
      dsimp only at lowered
      rw [Step.after_bind, Step.modify, Step.after_write, Ir.Draft.store_eq] at lowered
      obtain ⟨others, last, more, ends⟩ := Step.bind_inv lowered
      cases ends
      have declaredOpen : declared.draft.IsOpen :=
        Ir.Draft.isOpen_reserve faces.stands.ahead.isOpen name type
      have clearedOpen : cleared.IsOpen := Ir.Draft.isOpen_write declaredOpen _
      have storedOpen : stored.IsOpen := Ir.Draft.isOpen_write clearedOpen _
      have binds : Runs context [] (.resting { declared with draft := stored })
          (bindReturns names types) _ := runs_bindReturns names types storedOpen
      obtain ⟨_, moves, rfl, -⟩ := binds.holds more
      have growsStored : stored.function.Grows finished := moves.grows.trans grows
      have growsCleared : cleared.function.Grows finished :=
        (Ir.Draft.grows_write clearedOpen _).trans growsStored
      have growsDeclared : declared.draft.function.Grows finished :=
        (Ir.Draft.grows_write declaredOpen _).trans growsCleared
      obtain ⟨between, reserves, standsBetween, -, agrees⟩ :=
        machine.steps_reserve callers globals world faces.stands growsDeclared
      have executes : machine.execute between.advance callers globals world (.const zero 0) =
          some (.running (between.advance.define zero 0) callers globals world) := rfl
      obtain ⟨clears, standsCleared⟩ :=
        machine.step_define callers globals world standsBetween growsCleared executes
      have held : (between.advance.define zero 0).values zero.id = some 0 := by simp
      have locals : cleared.function.locals = declared.draft.function.locals := rfl
      have agreesCleared : frame.Agrees (between.advance.define zero 0)
          before.draft.function.locals.length := agrees
      obtain ⟨next, stores, -, facesNext⟩ := steps_stored
        (faces.tracks.of_agrees agreesCleared (Nat.le_refl _)) locals standsCleared growsStored held
        callers globals world
      obtain ⟨later, steps, facesLater⟩ := ih more (Nat.succ.inj size.symm).symm facesNext
      refine ⟨later, ((reserves.trans clears).trans stores).trans steps, ?_⟩
      rw [List.map_cons, List.map_cons, Env.declare_cons]
      exact facesLater

/-! ## Return values -/

/-- The machine stores to a shared slot. -/
theorem step_storeGlobal {draft : Ir.Draft} {slot : Ir.GlobalId} {value : Ir.Value} {content : Nat}
    (stands : frame.At finished draft)
    (grows : (draft.write (.store (.ofGlobal slot) value)).function.Grows finished)
    (held : frame.values value.id = some content) (declared : machine.declares slot)
    (callers : List Caller) (globals : Ir.GlobalId → Nat) (world : World) :
    machine.step (.running frame callers globals world) =
        some (.running frame.advance callers
          (fun other => if other = slot then content else globals other) world) ∧
      frame.advance.At finished (draft.write (.store (.ofGlobal slot) value)) := by
  obtain ⟨isCode, stands⟩ := stands.advance grows
  refine ⟨?_, stands⟩
  rw [machine.step_of_code callers globals world isCode, Machine.execute, Frame.values_advance, held]
  exact if_pos declared

/-- The machine copies variables to spill slots that are all different. -/
theorem steps_spilled {pairs : List (Binding × Ir.GlobalId)} {contents : List Nat}
    {locals : Ir.LocalId → Option (Option Nat)} {draft : Ir.Draft}
    (held : List.Forall₂ (fun pair content => locals pair.1.slot = some (some content)) pairs
      contents)
    (areLocals : frame.locals = locals) (apart : (pairs.map Prod.snd).Nodup)
    (declared : ∀ pair ∈ pairs, machine.declares pair.2) (stands : frame.At finished draft)
    (grows : (writeAll draft (transferCode draft.function.valueSupply
      (pairs.map .spilled))).function.Grows finished)
    (callers : List Caller) (globals : Ir.GlobalId → Nat) (world : World) :
    ∃ later globals', machine.Steps (.running frame callers globals world)
        (.running later callers globals' world) ∧
      later.At finished (writeAll draft (transferCode draft.function.valueSupply
        (pairs.map .spilled))) ∧
      (∀ id : Ir.ValueId, id.index < draft.function.valueSupply →
        later.values id = frame.values id) ∧
      List.Forall₂ (fun pair content => globals' pair.2 = content) pairs contents ∧
      ∀ slot ∉ pairs.map Prod.snd, globals' slot = globals slot := by
  induction held generalizing frame draft globals with
  | nil => exact ⟨frame, globals, .refl, stands, fun _ _ => rfl, .nil, fun _ _ => rfl⟩
  | @cons pair content pairs contents here rest ih =>
      obtain ⟨binding, slot⟩ := pair
      obtain ⟨absent, apart⟩ := List.nodup_cons.mp apart
      let value : Ir.Value := draft.next binding.type
      let loaded := draft.write (.load value (.ofLocal binding.slot))
      let stored := loaded.write (.store (.ofGlobal slot) value)
      have loadedOpen : loaded.IsOpen := Ir.Draft.isOpen_write stands.ahead.isOpen _
      have storedOpen : stored.IsOpen := Ir.Draft.isOpen_write loadedOpen _
      have growsStored : stored.function.Grows finished := (grows_writeAll storedOpen _).trans grows
      have growsLoaded : loaded.function.Grows finished :=
        (Ir.Draft.grows_write loadedOpen _).trans growsStored
      have isContent : frame.locals binding.slot = some (some content) := areLocals ▸ here
      obtain ⟨stepsLoad, standsLoaded⟩ :=
        machine.step_load callers globals world stands growsLoaded isContent
      have isHeld : (frame.advance.define value content).values value.id = some content := by simp
      obtain ⟨stores, standsStored⟩ := step_storeGlobal standsLoaded growsStored isHeld
        (declared _ List.mem_cons_self) callers globals world
      have localsStored : (frame.advance.define value content).advance.locals = locals := areLocals
      have declaredRest : ∀ pair ∈ pairs, machine.declares pair.2 :=
        fun pair member => declared pair (List.mem_cons_of_mem _ member)
      obtain ⟨later, globals', steps, standsLater, kept, spilled, others⟩ :=
        ih localsStored apart declaredRest standsStored grows _
      refine ⟨later, globals', (stepsLoad.tail stores).trans steps, standsLater, ?_,
        .cons ?_ spilled, ?_⟩
      · intro id old
        rw [kept id (Nat.lt_succ_of_lt old)]
        show (frame.advance.define value content).values id = _
        rw [Frame.values_define, if_neg]
        · rfl
        · rintro rfl
          exact Nat.lt_irrefl _ old
      · rw [others slot absent, if_pos rfl]
      · intro other notIn
        rw [List.map_cons, List.mem_cons, not_or] at notIn
        rw [others other notIn.2, if_neg notIn.1]

/-- Where a function returns directly what has been read, the machine returns it. -/
theorem steps_ret {draft : Ir.Draft} {value : Option Ir.Value} {result : Option Nat}
    (stands : frame.At finished draft) (numbered : finished.Numbered)
    (grows : (draft.close (.ret value)).function.Grows finished)
    (held : Option.Rel (fun value result => frame.values value.id = some result) value result)
    (callers : List Caller) (globals : Ir.GlobalId → Nat) (world : World) :
    machine.Steps (.running frame callers globals world)
      (.returning result callers globals world) := by
  obtain ⟨later, steps, ends, kept, -⟩ :=
    machine.steps_close callers globals world stands (by simp) grows numbered
  refine steps.tail ((machine.step_of_end callers globals world ends).trans ?_)
  cases held with
  | none => rfl
  | some held => rw [Machine.leave, kept, held]

/-- The return variables are written behind the body: the first is read, the others are copied to the first
spill slots. -/
theorem draft_returned (pooled : before.progress.Pooled) (first : Binding) (others : List Binding) :
    (before.returned (first :: others)).draft =
      let loaded := before.draft.write (.load (before.draft.next first.type) (.ofLocal first.slot))
      (writeAll loaded (transferCode loaded.function.valueSupply
        ((others.zip (spillSlots others.length)).map .spilled))).close
          (.ret (some (before.draft.next first.type))) := by
  let loaded := before.draft.write (.load (before.draft.next first.type) (.ofLocal first.slot))
  have slots : others.zip (before.reserved others.length).spills.slots =
      others.zip (spillSlots others.length) :=
    (State.pooled_reserved pooled others.length).zip_slots (before.le_length_slots_reserved others.length)
  show (writeAll loaded (transferCode loaded.function.valueSupply
    ((others.zip (before.reserved others.length).spills.slots).map .spilled))).close _ = _
  rw [slots]
  rfl

/-- The return variables are handed over: the first directly, the others in spill slots. -/
theorem steps_returned {returns : List Binding} {results : List Nat}
    (held : List.Forall₂ (fun binding result => frame.locals binding.slot = some (some result))
      returns results)
    (stands : frame.At finished before.draft) (numbered : finished.Numbered)
    (grows : (before.returned returns).draft.function.Grows finished)
    (pooled : before.progress.Pooled)
    (enough : returns.length - 1 ≤ machine.module.globals.length) (callers : List Caller)
    (globals : Ir.GlobalId → Nat) (world : World) :
    ∃ globals', machine.Steps (.running frame callers globals world)
        (.returning results.head? callers globals' world) ∧
      ∀ index value, results[index + 1]? = some value → globals' ⟨index⟩ = value := by
  cases held with
  | nil =>
      refine ⟨globals, steps_ret stands numbered grows .none callers globals world, ?_⟩
      intro index value isResult
      cases isResult
  | @cons first result others rest here there =>
      let value : Ir.Value := before.draft.next first.type
      let loaded := before.draft.write (.load value (.ofLocal first.slot))
      let pairs := others.zip (spillSlots others.length)
      let written := writeAll loaded (transferCode loaded.function.valueSupply (pairs.map .spilled))
      have growsClosed : (written.close (.ret (some value))).function.Grows finished := by
        rwa [draft_returned pooled] at grows
      have loadedOpen : loaded.IsOpen := Ir.Draft.isOpen_write stands.ahead.isOpen _
      have growsWritten : written.function.Grows finished :=
        (Ir.Draft.grows_close (isOpen_writeAll loadedOpen _) _).trans growsClosed
      have growsLoaded : loaded.function.Grows finished :=
        (grows_writeAll loadedOpen _).trans growsWritten
      obtain ⟨stepsLoad, standsLoaded⟩ :=
        machine.step_load callers globals world stands growsLoaded here
      have areHeld : List.Forall₂ (fun pair content =>
          (frame.advance.define value result).locals pair.1.slot = some (some content)) pairs rest := by
        apply List.forall₂_iff_get.mpr
        refine ⟨by simp [pairs, there.length_eq], ?_⟩
        intro index inPairs inRest
        have inOthers : index < others.length := there.length_eq ▸ inRest
        simpa [pairs] using there.get inOthers inRest
      have apart : (pairs.map Prod.snd).Nodup := by
        rw [List.map_snd_zip (Nat.le_of_eq (length_spillSlots _))]
        exact nodup_spillSlots _
      have declared : ∀ pair ∈ pairs, machine.declares pair.2 :=
        fun pair member => Nat.lt_of_lt_of_le (index_lt_of_mem_zip member) enough
      obtain ⟨later, globals', steps, standsLater, kept, spilled, -⟩ :=
        steps_spilled areHeld rfl apart declared standsLoaded growsWritten callers globals world
      have direct : later.values value.id = some result := by
        rw [kept value.id (Nat.lt_succ_self _)]
        simp
      refine ⟨globals', (stepsLoad.trans steps).trans (steps_ret standsLater numbered growsClosed
        (.some direct) callers globals' world), ?_⟩
      intro index content isResult
      obtain ⟨inResults, rfl⟩ := List.getElem?_eq_some_iff.mp isResult
      have inRest : index < rest.length := Nat.lt_of_succ_lt_succ inResults
      have inPairs : index < pairs.length := spilled.length_eq ▸ inRest
      simpa [pairs, spillSlots] using spilled.get inPairs inRest

/-- Return variables hold what they give, unless one of them may have no value. -/
theorem returnValues_of_tracks {bindings : List Binding} {entries : Env}
    (tracks : List.Forall₂ (Binding.Tracks lenient frame) bindings entries) :
    match entries.mapM Prod.snd with
    | some results => List.Forall₂
        (fun binding result => frame.locals binding.slot = some (some result)) bindings results
    | none => lenient = true := by
  induction tracks with
  | nil => exact .nil
  | @cons binding entry bindings entries here rest ih =>
      rw [List.mapM_cons]
      cases isContent : entry.2 with
      | none => exact here.assigned isContent
      | some content =>
          cases others : entries.mapM Prod.snd with
          | none =>
              rw [others] at ih
              exact ih
          | some results =>
              rw [others] at ih
              exact .cons (here.value content isContent) ih

/-! ## The whole function -/

/-- Parameters have the values that the function is called with. -/
theorem forall₂_lookup_zip {values : List Ir.Value} {arguments : List Nat}
    (apart : (values.map Ir.Value.id).Nodup) (size : values.length = arguments.length) :
    List.Forall₂ (fun value argument =>
      ((values.map Ir.Value.id).zip arguments).lookup value.id = some argument) values arguments := by
  induction values generalizing arguments with
  | nil =>
      obtain rfl := List.length_eq_zero_iff.mp size.symm
      exact .nil
  | cons first values ih =>
      obtain ⟨argument, arguments, rfl⟩ := List.exists_cons_of_length_eq_add_one size.symm
      obtain ⟨absent, apart⟩ := List.nodup_cons.mp apart
      refine .cons (by simp) ?_
      have others : ∀ value ∈ values, value.id ≠ first.id := by
        intro value member same
        exact absent (same ▸ List.mem_map_of_mem member)
      refine ((List.forall₂_and_left _ _).mpr ⟨others, ih apart (Nat.succ.inj size)⟩).imp ?_
      rintro value other ⟨differs, found⟩
      rw [List.map_cons, List.zip_cons_cons, List.lookup_cons]
      have isOther : (value.id == first.id) = false := by simpa using differs
      simp only [isOther]
      exact found

/-- A function that is called stands at its start. -/
theorem Origin.call? {last : Progress} {definition : Definition} {function : Ir.Function}
    (origin : Origin context last definition function) (lenient : Bool) {arguments : List Nat}
    (size : arguments.length = origin.signature.parameters.length) :
    ∃ inner, function.call? arguments = some inner ∧
      Faces lenient function (origin.before.begin definition.name origin.signature) [] inner ∧
      List.Forall₂ (fun value argument => inner.values value.id = some argument)
        (origin.before.begin definition.name origin.signature).draft.function.parameters
        arguments := by
  let begin := origin.before.begin definition.name origin.signature
  have begins : begin.Begins := origin.before.begins definition.name origin.signature
  have grows : begin.draft.function.Grows function := origin.grows
  have count : begin.draft.function.parameters.length = arguments.length := by
    have indices := congrArg List.length
      (origin.before.indices_parameters definition.name origin.signature)
    rw [List.length_map, List.length_range] at indices
    exact indices.trans size.symm
  have isCursor : begin.draft.cursor = begin.draft.function.entry :=
    begins.cursor.trans begins.entry.symm
  have fresh : begin.draft.function.block? begin.draft.cursor =
      some (.empty begin.draft.cursor (some "entry")) := rfl
  obtain ⟨block, found, -⟩ := grows.kept fresh
  have foundEntry : function.block? function.entry = some block := by
    rw [grows.entry, ← isCursor]
    exact found
  let inner : Frame := {
    function := function
    code := block.instructions
    terminator := block.terminator
    values := fun id => ((begin.draft.function.parameters.map Ir.Value.id).zip arguments).lookup id
    locals := fun _ => none }
  refine ⟨inner, ?_, ⟨⟨rfl, .of_fresh fresh found, ?_⟩, .nil, .nil, ?_⟩, ?_⟩
  · rw [Ir.Function.call?, grows.parameters, if_pos count.symm, foundEntry]
    rfl
  · intro slot below
    rw [if_pos isCursor] at below
    exact absurd below (Nat.not_lt_zero _)
  · intro binding member
    cases member
  · exact forall₂_lookup_zip (origin.before.nodup_parameters definition.name origin.signature) count

/-- Around the body of a function there are no loops. -/
theorem Origin.innermost?_prepared {last : Progress} {definition : Definition}
    {function : Ir.Function} (origin : Origin context last definition function) :
    origin.prepared.state.loops.innermost? = none := by
  have finish : origin.finish.state.loops = origin.start.loops := origin.run.rested.loops
  have body : origin.finish.state.loops = origin.prepared.state.loops :=
    origin.run.part.performed.loops
  rw [← body, finish, origin.begins.loops]
  rfl

/-- At the end of a function the last of the visible variables are the return variables. -/
theorem Origin.tracks_returns {last : Progress} {definition : Definition} {function : Ir.Function}
    (origin : Origin context last definition function)
    (faces : Faces lenient finished origin.finish.state env frame) :
    List.Forall₂ (Binding.Tracks lenient frame) origin.returns
      (env.take origin.returns.length).reverse := by
  obtain ⟨-, -, -, scope⟩ :=
    (performs_statements definition.body).inBlock_inv origin.run.ready origin.run.part.after
  have bindings : origin.finish.state.scope.bindings.reverse =
      origin.returns.reverse ++ origin.start.scope.bindings.reverse := by
    rw [scope, origin.run.reserved.scope, List.reverse_append]
    rfl
  have entries := List.forall₂_take origin.returns.length faces.tracks.entries
  rw [bindings, List.take_left' (List.length_reverse ..)] at entries
  have reversed := List.forall₂_reverse_iff.mpr entries
  rwa [List.reverse_reverse] at reversed

/-- What the machine does with the outcome of a body. -/
theorem Origin.simulates_returned {last : Progress} {definition : Definition}
    {function : Ir.Function} (origin : Origin context last definition function)
    (enough : origin.returns.length - 1 ≤ machine.module.globals.length)
    (size : origin.returns.length = definition.returns.length) {outcome : Flow × Env}
    {callers : List Caller} {world : World} {config : Config World}
    (acted : Acted lenient function origin.prepared.state origin.finish.state callers outcome world
      config) :
    machine.Simulates lenient count (definition.give outcome world) config
      (Returned origin.returns.length callers) := by
  obtain ⟨flow, env⟩ := outcome
  obtain ⟨later, globals, rfl, ends⟩ := acted
  cases flow with
  | leaving exit =>
      obtain ⟨targets, -, innermost, -⟩ := ends
      rw [origin.innermost?_prepared] at innermost
      cases innermost
  | onward =>
      have values := returnValues_of_tracks (origin.tracks_returns ends)
      rw [size] at values
      rw [Definition.give, Definition.returnValues]
      cases isResult : (env.take definition.returns.length).reverse.mapM Prod.snd with
      | none =>
          rw [isResult] at values
          exact values
      | some results =>
          rw [isResult] at values
          have grows : (origin.finish.state.returned origin.returns).draft.function.Grows function :=
            origin.function_eq ▸ .refl _
          obtain ⟨globals', steps, others⟩ := steps_returned values ends.stands origin.slotDiscipline.numbered grows
            origin.pooled_finish enough callers globals world
          exact .of_steps steps (.ok ⟨values.length_eq.symm, globals', rfl, others⟩)

/-- A function does what its definition does. -/
theorem Origin.simulates_exec {types : TypeNames} {index : Nat} {last : Progress}
    {definition : Definition} {function : Ir.Function}
    (origin : Origin context last definition function)
    (describes : Describes types index definition origin.signature)
    (answers : Answers machine lenient count context arity calls) (enoughFuel : count ≤ fuel)
    (proper : Statement.areProper arity lenient definition.body = true)
    (enough : origin.returns.length - 1 ≤ machine.module.globals.length) {arguments : List Nat}
    (size : arguments.length = definition.parameters.length) :
    ∃ inner, function.call? arguments = some inner ∧
      ∀ callers globals world, machine.Simulates lenient count
        (definition.exec calls fuel arguments world) (.running inner callers globals world)
        (Returned origin.returns.length callers) := by
  have parameterCount := describes.length_parameters
  have returnCount : origin.returns.length = definition.returns.length := by
    simpa using congrArg List.length (origin.returnVariables describes).names
  obtain ⟨inner, starts, faces, held⟩ := origin.call? lenient (size.trans parameterCount.symm)
  refine ⟨inner, starts, ?_⟩
  intro callers globals world
  have growsFinish : origin.finish.state.draft.function.Grows function := by
    have returned := grows_returned origin.isOpen origin.returns
    rwa [← origin.function_eq] at returned
  have growsPrepared : origin.prepared.state.draft.function.Grows function :=
    origin.run.performs.grows.trans growsFinish
  have growsStart : origin.start.draft.function.Grows function :=
    origin.run.prepares.grows.trans growsPrepared
  have pooledPrepared : origin.prepared.state.progress.Pooled :=
    origin.run.prepares.progress.2.2 origin.pooled_start
  obtain ⟨first, copies, facesStart⟩ := steps_bound definition.parameters held
    (size.symm.trans held.length_eq.symm) rfl faces growsStart
    (origin.before.begins definition.name origin.signature) callers globals world
  obtain ⟨second, clears, facesPrepared⟩ := steps_bindReturns context origin.run.binds
    describes.length_results.symm facesStart growsPrepared callers globals world
  have acts := (executes_statements answers origin.slotDiscipline.numbered enoughFuel definition.body
    proper).inBlock (performs_statements definition.body) origin.run.ready pooledPrepared
    origin.run.part growsFinish
  apply Machine.Simulates.of_steps (copies.trans clears)
  rw [Definition.exec, if_neg (not_not.mpr size)]
  apply (acts callers globals world facesPrepared).bind
  intro outcome world config acted
  exact origin.simulates_returned enough returnCount acted

end Lowering

end YulLowering
