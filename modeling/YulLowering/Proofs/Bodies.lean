import Mathlib.Data.List.Nodup
import YulLowering.Lowering.Programs
import YulLowering.Proofs.ControlFlow

/-!
# Function bodies

The lowering of a function has three parts. Parameters are copied into slots, which is followed
state by state. The return variables and the body are a run of moves from a stage where nothing has
been begun to one where nothing is left. At the end the return variables are read and handed over,
which is straight-line code again.
-/

namespace YulLowering.Lowering

/-! ## Parameters -/

/-- The state after a value has been written to a slot. -/
def State.stored (state : State) (slot : Ir.LocalId) (value : Ir.Value) : State :=
  { state with draft := state.draft.write (.store (.ofLocal slot) value) }

/-- The state after parameters have been copied into slots. -/
def State.bound (state : State) : List TypedName → List Ir.Value → State
  | ⟨name, _⟩ :: names, value :: values =>
    ((state.declared name value.type).stored state.draft.nextLocal value).bound names values
  | _, _ => state

theorem after_bindParameters (names : List TypedName) (values : List Ir.Value) (state : State) :
    (bindParameters names values).after state = (.ok (), state.bound names values) := by
  induction names generalizing values state with
  | nil => rfl
  | cons head names ih =>
      cases values with
      | nil => rfl
      | cons value values =>
          rw [bindParameters, Step.after_bind]
          show ((Step.modify _ >>= fun _ => bindParameters names values).after
            (state.declared head.name value.type)) = _
          rw [Step.after_bind]
          exact ih values _

/-- What holds before parameters are copied and survives the copy of each holds afterwards. -/
theorem State.bound_keeps {motive : List Ir.Value → State → Prop}
    (copy : ∀ {state value values} name, motive (value :: values) state →
      motive values ((state.declared name value.type).stored state.draft.nextLocal value))
    (names : List TypedName) (values : List Ir.Value) {state : State}
    (holds : motive values state) : ∃ rest, motive rest (state.bound names values) := by
  induction names generalizing values state with
  | nil => exact ⟨values, holds⟩
  | cons head names ih =>
      cases values with
      | nil => exact ⟨[], holds⟩
      | cons value values => exact ih values (copy head.name holds)

/-! ## Return variables -/

variable {context : Context} {outer : List Ir.BlockId} {start : Stage}

/-- Every type has a zero. -/
theorem holds_zero (type : Ir.ValueType) : type.Holds 0 := by
  cases type with
  | int width =>
      rw [Ir.ValueType.holds_int, Nat.shiftLeft_eq, Nat.one_mul]
      exact Nat.two_pow_pos width
  | void => exact Ir.ValueType.holds_void 0

/-- The variables that are declared between two stages, each with a slot of its own. -/
structure Reserved (start : Stage) (bindings : List Binding) (finish : Stage) : Prop where
  scope : finish.state.scope.bindings = start.state.scope.bindings ++ bindings
  locals : finish.draft.function.locals =
    start.draft.function.locals ++ bindings.map fun binding =>
      ⟨binding.slot, binding.name, binding.type⟩
  slots : bindings.map (fun binding => binding.slot.index) =
    List.range' start.draft.function.locals.length bindings.length

theorem Reserved.nil (stage : Stage) : Reserved stage [] stage where
  scope := (List.append_nil _).symm
  locals := (List.append_nil _).symm
  slots := rfl

/-- The first of several variables. -/
theorem Reserved.cons {finish : Stage} {stage : Stage} {name : String} {type : Ir.ValueType}
    {bindings : List Binding}
    (scope : stage.state.scope = start.state.scope.bind ⟨name, start.draft.nextLocal, type⟩)
    (locals : stage.draft.function.locals =
      start.draft.function.locals ++ [⟨start.draft.nextLocal, name, type⟩])
    (rest : Reserved stage bindings finish) :
    Reserved start (⟨name, start.draft.nextLocal, type⟩ :: bindings) finish where
  scope := by
    rw [rest.scope, scope]
    simp [Scope.bind]
  locals := by
    rw [rest.locals, locals]
    simp
  slots := by
    rw [List.map_cons, rest.slots, locals, List.length_append]
    exact (List.range'_succ ..).symm

theorem runs_bindReturns (names : List TypedName) (types : List Ir.ValueType)
    (isOpen : start.draft.IsOpen) :
    Runs context outer start (bindReturns names types) fun bindings finish =>
      Performed start finish ∧ finish.draft.IsOpen ∧ Reserved start bindings finish ∧
        bindings.map (fun binding => (binding.name, binding.type)) =
          (names.map TypedName.name).zip types := by
  induction names generalizing start types with
  | nil => exact .pure ⟨.refl start, isOpen, .nil start, rfl⟩
  | cons head names ih =>
      obtain ⟨name, typeName⟩ := head
      cases types with
      | nil => exact .pure ⟨.refl start, isOpen, .nil start, rfl⟩
      | cons type types =>
          let declared : Stage := { start with state := start.state.declared name type }
          have declares : Runs context outer start (Step.declare name type) fun slot finish =>
              slot = start.draft.nextLocal ∧ finish = declared :=
            .of_move (.declare name type) rfl ⟨rfl, rfl⟩
          apply Runs.bind declares
          rintro _ _ _ ⟨rfl, rfl⟩
          have stillOpen : declared.draft.IsOpen := Ir.Draft.isOpen_reserve isOpen name type
          let binding : Binding := ⟨name, start.draft.nextLocal, type⟩
          let zero : Ir.Value := declared.draft.next type
          let cleared : Stage := { declared.redraft (declared.draft.write (.const zero 0)) with
            pending := zero :: start.pending }
          have clears : Runs context outer declared
              (Step.write fun draft => draft.const type 0) fun value finish =>
                value = zero ∧ finish = cleared :=
            .of_move (.write (.const zero 0) start.pending stillOpen rfl
              (.const type 0 (holds_zero type))) rfl ⟨rfl, rfl⟩
          apply Runs.bind clears
          rintro _ _ _ ⟨rfl, rfl⟩
          let store : Ir.Instruction := .store (.ofLocal binding.slot) zero
          let stored : Stage := { cleared.redraft (cleared.draft.write store) with
            pending := start.pending }
          have clearedOpen : cleared.draft.IsOpen := Ir.Draft.isOpen_write stillOpen _
          have inScope : binding ∈ cleared.state.scope.bindings := by
            simp [cleared, Stage.redraft, declared, State.declared, Scope.bind, binding]
          have stores : Runs context outer cleared
              (Step.modify fun draft => draft.store (.ofLocal binding.slot) zero)
              fun _ finish => finish = stored :=
            .of_move (.write store start.pending clearedOpen rfl (.store binding zero inScope))
              rfl rfl
          apply Runs.bind stores
          rintro _ _ _ rfl
          have storedOpen : stored.draft.IsOpen := Ir.Draft.isOpen_write clearedOpen store
          apply Runs.bind (ih types storedOpen)
          rintro bindings finish _ ⟨performed, lastOpen, reserved, described⟩
          have bound : start.state.scope.Extends stored.state.scope := .bind _ _
          refine .pure ⟨⟨performed.loops, bound.trans performed.scope, performed.announced,
            performed.pending, performed.waiting⟩, lastOpen, .cons rfl rfl reserved, ?_⟩
          exact congrArg ((name, type) :: ·) described

/-! ## Return values -/

/-- The instructions at the end of a function: the first return variable is read for the direct
result, the others are copied to spill slots. -/
def returnCode (supply : Nat) (slots : List Ir.GlobalId) : List Binding → List Ir.Instruction
  | [] => []
  | first :: others =>
    .load ⟨⟨supply⟩, first.type⟩ (.ofLocal first.slot) ::
      transferCode (supply + 1) ((others.zip slots).map .spilled)

/-- The direct result of a function with given return variables. -/
def directResult (supply : Nat) (returns : List Binding) : Option Ir.Value :=
  returns.head?.map fun first => ⟨⟨supply⟩, first.type⟩

/-- The state after the return values have been handed over. -/
def State.returned (state : State) (returns : List Binding) : State :=
  { state.reserved (returns.length - 1) with
    draft := (writeAll state.draft (returnCode state.draft.function.valueSupply
      (state.reserved (returns.length - 1)).spills.slots returns)).close
        (.ret (directResult state.draft.function.valueSupply returns)) }

/-- As long as there are enough spill slots, copying return variables to them succeeds. -/
theorem after_spillReturns (sources : List Binding) (index : Nat) (state : State)
    (enough : index + sources.length ≤ state.spills.slots.length) :
    (spillReturns index sources).after state =
      (.ok (), { state with
        draft := writeAll state.draft (transferCode state.draft.function.valueSupply
          ((sources.zip (state.spills.slots.drop index)).map .spilled)) }) := by
  induction sources generalizing index state with
  | nil => rfl
  | cons source rest ih =>
      have bound : index < state.spills.slots.length := by
        simp only [List.length_cons] at enough
        omega
      have spilled (draft : Ir.Draft) :
          (Step.spill index).after { state with draft := draft } =
            (.ok state.spills.slots[index], { state with draft := draft }) :=
        after_spill (List.getElem?_eq_getElem bound)
      rw [spillReturns, Step.after_bind, Step.after_write, Ir.Draft.load_eq]
      dsimp only
      rw [Step.after_bind, spilled]
      simp only [Step.after_bind, Step.modify, Step.after_write, Ir.Draft.store_eq]
      rw [ih, List.drop_eq_getElem_cons bound]
      · rfl
      · simp only [List.length_cons] at enough
        show index + 1 + rest.length ≤ state.spills.slots.length
        omega

/-- Return values are always handed over: there are as many spill slots as are asked for. -/
theorem after_returnValues (returns : List Binding) (state : State) :
    (returnValues returns).after state = (.ok (), state.returned returns) := by
  cases returns with
  | nil =>
      rw [State.returned, List.length_nil, State.reserved_zero]
      rfl
  | cons first others =>
      have enough := state.le_length_slots_reserved others.length
      rw [returnValues, Step.after_bind]
      show ((Step.write _ >>= _).after (state.reserved others.length)) = _
      rw [Step.after_bind, Step.after_write, Ir.Draft.load_eq]
      dsimp only
      rw [Step.after_bind, after_spillReturns _ _ _ (by simpa using enough)]
      rfl

/-! ## The whole body -/

/-- What holds while parameters are copied: there is one block, the cursor is in it, and there are
no loops. -/
structure State.Begins (state : State) : Prop where
  settled : state.draft.Settled []
  flows : state.draft.Flows []
  isOpen : state.draft.IsOpen
  entry : state.draft.function.entry = ⟨0⟩
  cursor : state.draft.cursor = ⟨0⟩
  loops : state.loops = .empty

/-- At first the entry is the only block, and it is open. -/
theorem Progress.exit?_begin (progress : Progress) (name : String) (signature : Signature)
    {id : Ir.BlockId} {exit : Ir.Terminator}
    (isExit : (progress.begin name signature).draft.function.exit? id = some exit) :
    id = ⟨0⟩ ∧ exit = .unreachable := by
  obtain ⟨_ | index⟩ := id
  · cases isExit
    exact ⟨rfl, rfl⟩
  · cases isExit

theorem Progress.begins (progress : Progress) (name : String) (signature : Signature) :
    (progress.begin name signature).Begins := by
  have found : (progress.begin name signature).draft.function.block? ⟨0⟩ =
      some (.empty ⟨0⟩ (some "entry")) := rfl
  refine ⟨⟨rfl, rfl, List.nodup_nil, ?_⟩, ⟨?_, ?_, ?_, ?_⟩, ⟨_, found, rfl⟩, rfl, rfl, rfl⟩
  · intro id waits
    cases waits
  · rintro source target ⟨exit, isExit, leads⟩
    rw [(progress.exit?_begin name signature isExit).2] at leads
    cases leads
  · intro id value isExit
    cases (progress.exit?_begin name signature isExit).2
  · intro id isExit
    exact .inl (progress.exit?_begin name signature isExit).1
  · intro id present
    obtain ⟨exit, isExit⟩ := Option.isSome_iff_exists.mp present
    exact ⟨id, .refl, by rw [isExit, (progress.exit?_begin name signature isExit).2]⟩

/-- The parameters of a function are its first values. -/
theorem Progress.indices_parameters (progress : Progress) (name : String) (signature : Signature) :
    ((progress.begin name signature).draft.function.parameters.map fun value => value.id.index) =
      List.range signature.parameters.length := by
  simp [Progress.begin, Ir.Draft.start, Ir.Function.create, Ir.Function.pushBlock,
    List.range_eq_range', ← List.zipIdx_map_snd]

theorem Progress.nodup_parameters (progress : Progress) (name : String) (signature : Signature) :
    ((progress.begin name signature).draft.function.parameters.map Ir.Value.id).Nodup := by
  have distinct : ((progress.begin name signature).draft.function.parameters.map
      fun value => value.id.index).Nodup := by
    rw [progress.indices_parameters]
    exact List.nodup_range
  exact List.Nodup.of_map Ir.ValueId.index (by rwa [List.map_map])

theorem State.Begins.copied {state : State} (begins : state.Begins) (name : String)
    (value : Ir.Value) :
    ((state.declared name value.type).stored state.draft.nextLocal value).Begins := by
  have declaredOpen := Ir.Draft.isOpen_reserve begins.isOpen name value.type
  have declared := begins.flows.of_exit?_eq
    (Ir.Draft.exit?_reserve state.draft name value.type) rfl rfl
  exact ⟨(begins.settled.reserve name value.type).write declaredOpen _,
    declared.of_exit?_eq (Ir.Draft.exit?_write _ _) rfl rfl,
    Ir.Draft.isOpen_write declaredOpen _, begins.entry, begins.cursor, begins.loops⟩

theorem State.Begins.bound {state : State} (begins : state.Begins) (names : List TypedName)
    (values : List Ir.Value) : (state.bound names values).Begins := by
  obtain ⟨-, still⟩ := State.bound_keeps (motive := fun _ state => state.Begins)
    (fun name begins => begins.copied name _) names values begins
  exact still

/-- The function grows while its parameters are copied. -/
theorem State.Begins.grows {state : State} (begins : state.Begins) (names : List TypedName)
    (values : List Ir.Value) :
    state.draft.function.Grows (state.bound names values).draft.function := by
  obtain ⟨-, -, grows⟩ := State.bound_keeps
    (motive := fun _ later => later.Begins ∧ state.draft.function.Grows later.draft.function)
    (fun {later value values} name holds => by
      obtain ⟨begins, grows⟩ := holds
      have declaredOpen := Ir.Draft.isOpen_reserve begins.isOpen name value.type
      exact ⟨begins.copied name value, (grows.trans (Ir.Draft.grows_reserve _ name value.type)).trans
        (Ir.Draft.grows_write declaredOpen _)⟩)
    names values ⟨begins, .refl _⟩
  exact grows

/-- Each parameter that is copied gets a slot. -/
theorem length_locals_bound (names : List TypedName) (values : List Ir.Value) (state : State) :
    (state.bound names values).draft.function.locals.length =
      state.draft.function.locals.length + min names.length values.length := by
  induction names generalizing values state with
  | nil => simp [State.bound]
  | cons head names ih =>
      cases values with
      | nil => simp [State.bound]
      | cons value values =>
          rw [State.bound, ih]
          simp only [State.stored, State.declared, Ir.Draft.locals_write, Ir.Draft.locals_reserve,
            List.length_append, List.length_cons, List.length_nil]
          omega

/-- The function grows while the return values are handed over. -/
theorem grows_returned {state : State} (isOpen : state.draft.IsOpen) (returns : List Binding) :
    state.draft.function.Grows (state.returned returns).draft.function :=
  (grows_writeAll isOpen _).trans (Ir.Draft.grows_close (isOpen_writeAll isOpen _) _)

/-- How a body has been lowered, from the state in which parameters have been copied: first the
return variables, then the statements. -/
structure BodyRun (context : Context) (definition : Definition) (signature : Signature)
    (start : State) (returns : List Binding) (prepared finish : Stage) : Prop where
  prepares : Moves context [] (.resting start) prepared
  binds : (bindReturns definition.returns signature.results).after start =
    (.ok returns, prepared.state)
  reserved : Reserved (.resting start) returns prepared
  described : returns.map (fun binding => (binding.name, binding.type)) =
    (definition.returns.map TypedName.name).zip signature.results
  ready : Ready [] prepared
  part : Part context [] (Step.inBlock (Statement.lowerEach context definition.body)) prepared finish
  rested : Performed (.resting start) finish

theorem BodyRun.performs {definition : Definition} {signature : Signature} {start : State}
    {returns : List Binding} {prepared finish : Stage}
    (run : BodyRun context definition signature start returns prepared finish) :
    Moves context [] prepared finish :=
  run.part.moves

theorem BodyRun.moves {definition : Definition} {signature : Signature} {start : State}
    {returns : List Binding} {prepared finish : Stage}
    (run : BodyRun context definition signature start returns prepared finish) :
    Moves context [] (.resting start) finish :=
  run.prepares.trans run.performs

/-- At the end of a body the block under the cursor is open, so the return values are handed over
there. -/
theorem writeBody_inv {definition : Definition} {signature : Signature} {state last : State}
    (begins : state.Begins)
    (lowered : (definition.writeBody context signature).after state = (.ok (), last)) :
    ∃ returns prepared finish,
      BodyRun context definition signature
        (state.bound definition.parameters state.draft.function.parameters) returns prepared
        finish ∧
      finish.draft.IsOpen ∧ finish.draft.Flows [] ∧ last = finish.state.returned returns := by
  have bound := begins.bound definition.parameters state.draft.function.parameters
  rw [Definition.writeBody, Step.after_bind, Step.after_inspect] at lowered
  dsimp only at lowered
  rw [Step.after_bind, after_bindParameters] at lowered
  dsimp only at lowered
  generalize state.bound definition.parameters state.draft.function.parameters = start
    at bound lowered
  have binds : Runs context [] (.resting start) (bindReturns definition.returns signature.results)
      _ := runs_bindReturns definition.returns signature.results bound.isOpen
  obtain ⟨returns, prepared, prepares, ⟨⟨performed, isOpen, reserved, described⟩, bound_eq⟩,
    lowered⟩ := binds.recorded.bind_inv lowered
  have ready : Ready [] prepared := by
    refine ⟨prepares.settled bound.settled, performed.pending, ?_⟩
    rw [performed.loops]
    intro frame enclosing
    rw [Stage.resting, bound.loops] at enclosing
    cases enclosing
  obtain ⟨-, finish, -, part, lowered⟩ :=
    ((performs_statements definition.body).inBlock ready).part.bind_inv lowered
  have run : BodyRun context definition signature start returns prepared finish :=
    ⟨prepares, bound_eq, reserved, described, ready, part, performed.after part.performed⟩
  obtain ⟨settled, flows⟩ := run.moves.flows ⟨bound.settled, bound.flows⟩
  rw [run.rested.waiting] at flows
  have present : (finish.draft.function.exit? finish.draft.cursor).isSome := by
    rw [Ir.Function.exit?, Option.isSome_map]
    exact settled.cursor
  have isOpen := flows.isOpen present
  rw [Step.after_bind, Step.after_inspect] at lowered
  dsimp only at lowered
  rw [isOpen.isClosed] at lowered
  have returned := (after_returnValues returns finish.state).symm.trans lowered
  exact ⟨returns, prepared, finish, run, isOpen, flows, (congrArg Prod.snd returned).symm⟩

end YulLowering.Lowering
