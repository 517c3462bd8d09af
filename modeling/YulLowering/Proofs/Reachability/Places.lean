import YulLowering.Proofs.Frames.Blocks
import YulLowering.Proofs.Frames.Steps
import YulLowering.Proofs.Reachability.Edges

/-!
# Places between statements

Between statements all edges lead to blocks that control is meant to come to, and so will those that loop
exits make. Some blocks may have been made that are still to be entered, and some that are still to be
connected; statements in between do not touch them.
-/

namespace YulLowering

namespace Lowering

variable {context : Context} {state later : State} {waiting pending : List Ir.BlockId} {cut : Bool}

/-! ## Straight-line code -/

/-- The flow of control between blocks is the same. -/
structure State.SameFlow (state later : State) : Prop where
  exits : later.draft.function.exit? = state.draft.function.exit?
  labels : later.draft.function.label? = state.draft.function.label?
  entry : later.draft.function.entry = state.draft.function.entry
  cursor : later.draft.cursor = state.draft.cursor
  loops : later.loops = state.loops
  settled : state.draft.IsOpen → ∀ waiting, state.draft.Settled waiting → later.draft.Settled waiting

theorem State.SameFlow.isOpen (same : state.SameFlow later) (isOpen : state.draft.IsOpen) :
    later.draft.IsOpen := by
  rwa [Ir.Draft.isOpen_iff_exit?, same.exits, same.cursor, ← Ir.Draft.isOpen_iff_exit?]

theorem State.SameFlow.intended (same : state.SameFlow later) {id : Ir.BlockId}
    (intended : state.draft.function.Intended id) : later.draft.function.Intended id := by
  unfold Ir.Function.Intended
  rwa [same.labels]

theorem State.SameFlow.connected (same : state.SameFlow later)
    (connected : state.draft.Connected pending) : later.draft.Connected pending :=
  connected.of_exit?_eq same.exits same.entry same.cursor

instance : StraightLine State.SameFlow where
  refl _ := ⟨rfl, rfl, rfl, rfl, rfl, fun _ _ => id⟩
  trans _ _ _ first second :=
    ⟨second.exits.trans first.exits, second.labels.trans first.labels, second.entry.trans first.entry,
      second.cursor.trans first.cursor, second.loops.trans first.loops, fun isOpen waiting settled =>
        second.settled (first.isOpen isOpen) waiting (first.settled isOpen waiting settled)⟩
  written _ instruction :=
    ⟨Ir.Draft.exit?_write _ _, Ir.Draft.label?_write _ _, rfl, rfl, rfl,
      fun isOpen _ settled => settled.write isOpen instruction⟩
  reserved _ _ := ⟨rfl, rfl, rfl, rfl, rfl, fun _ _ => id⟩
  imported _ _ := ⟨rfl, rfl, rfl, rfl, rfl, fun _ _ => id⟩

theorem sameFlow_declare (name : String) (type : Ir.ValueType) :
    (Step.declare name type).Respects State.SameFlow :=
  ⟨fun _ => ⟨Ir.Draft.exit?_reserve _ name type, Ir.Draft.label?_reserve _ name type, rfl, rfl, rfl,
    fun _ _ settled => settled.reserve name type⟩⟩

theorem sameFlow_declareAll (declared : List TypedName) :
    (declareAll context declared).Respects State.SameFlow := by
  induction declared with
  | nil => exact .pure []
  | cons head rest ih =>
      obtain ⟨name, typeName⟩ := head
      apply Step.Respects.ofExcept_bind
      intro type
      exact .bind (sameFlow_declare name type) fun _ => .bind ih fun _ => .pure _

/-! ## Places between statements -/

/-- Edges only lead where control is meant to come to, also those that loop exits will make, and some blocks
wait to be entered. -/
structure State.Guided (waiting : List Ir.BlockId) (state : State) : Prop where
  settled : state.draft.Settled waiting
  directed : state.draft.function.Directed
  loops : ∀ frame ∈ state.loops.enclosing, ∀ exit : LoopExit,
    state.draft.function.Intended (frame.target exit)
  meant : ∀ id ∈ waiting, state.draft.function.Intended id

namespace State.Guided

theorem same (guided : state.Guided waiting) (isOpen : state.draft.IsOpen)
    (same : state.SameFlow later) : later.Guided waiting where
  settled := same.settled isOpen waiting guided.settled
  directed := Ir.Draft.directed_of_eq guided.directed same.exits same.labels
  loops := by
    rw [same.loops]
    exact fun frame enclosing exit => same.intended (guided.loops frame enclosing exit)
  meant id waits := same.intended (guided.meant id waits)

theorem inScope (guided : state.Guided waiting) (scope : Scope) :
    ({ state with scope } : State).Guided waiting :=
  ⟨guided.settled, guided.directed, guided.loops, guided.meant⟩

/-- A block that is made waits to be entered. -/
theorem newBlock (guided : state.Guided waiting) {label : String} (meant : label ≠ "unreachable") :
    ({ state with draft := (state.draft.newBlock label).2 } : State).Guided
      (state.draft.nextBlock :: waiting) where
  settled := guided.settled.newBlock label
  directed := Ir.Draft.directed_newBlock guided.directed label
  loops frame enclosing exit := Ir.Draft.intended_newBlock (guided.loops frame enclosing exit) label
  meant := List.forall_mem_cons.mpr ⟨Ir.Draft.intended_nextBlock _ meant, fun id waits =>
    Ir.Draft.intended_newBlock (guided.meant id waits) label⟩

theorem close (guided : state.Guided waiting) (isOpen : state.draft.IsOpen) {terminator : Ir.Terminator}
    (meant : ∀ target ∈ terminator.successors, state.draft.function.Intended target) :
    ({ state with draft := state.draft.close terminator } : State).Guided waiting where
  settled := guided.settled.close isOpen terminator
  directed := Ir.Draft.directed_close guided.directed meant
  loops frame enclosing exit := Ir.Draft.intended_close (guided.loops frame enclosing exit) terminator
  meant id waits := Ir.Draft.intended_close (guided.meant id waits) terminator

/-- A block that waits may be entered. -/
theorem moveTo {before after : List Ir.BlockId} {block : Ir.BlockId}
    (guided : state.Guided (before ++ block :: after)) :
    ({ state with draft := state.draft.moveTo block } : State).Guided (before ++ after) where
  settled := guided.settled.moveTo
  directed := guided.directed
  loops := guided.loops
  meant := by
    intro id waits
    apply guided.meant id
    rcases List.mem_append.mp waits with early | late
    · exact List.mem_append_left _ early
    · exact List.mem_append_right _ (List.mem_cons_of_mem _ late)

/-- A block under the cursor that is not closed is open. -/
theorem isOpen (guided : state.Guided waiting) (isClosed : state.draft.isClosed = false) :
    state.draft.IsOpen := by
  obtain ⟨block, found⟩ := Option.isSome_iff_exists.mp guided.settled.cursor
  exact Ir.Draft.isOpen_of_isClosed_eq_false found isClosed

theorem fallThrough (guided : state.Guided waiting) {target : Ir.BlockId}
    (meant : state.draft.function.Intended target) :
    ({ state with draft := state.draft.fallThrough target } : State).Guided waiting := by
  unfold Ir.Draft.fallThrough
  cases isClosed : state.draft.isClosed with
  | true => exact guided
  | false =>
      apply guided.close (guided.isOpen isClosed)
      intro other isTarget
      rwa [List.mem_singleton.mp isTarget]

theorem grows_fallThrough (guided : state.Guided waiting) (target : Ir.BlockId) :
    state.draft.function.Grows (state.draft.fallThrough target).function := by
  unfold Ir.Draft.fallThrough
  cases isClosed : state.draft.isClosed with
  | true => exact .refl _
  | false => exact Ir.Draft.grows_close (guided.isOpen isClosed) _

/-- Nothing need wait. -/
theorem rest (guided : state.Guided waiting) : state.Guided [] where
  settled := ⟨guided.settled.entry, guided.settled.cursor, .nil, fun _ waits => nomatch waits⟩
  directed := guided.directed
  loops := guided.loops
  meant := fun _ waits => nomatch waits

/-- A block that waits is open. -/
theorem exit?_of_mem (guided : state.Guided waiting) {id : Ir.BlockId} (waits : id ∈ waiting) :
    state.draft.function.exit? id = some .unreachable :=
  guided.settled.exit?_of_mem waits

theorem isOpen_moveTo (guided : state.Guided waiting) {id : Ir.BlockId} (waits : id ∈ waiting) :
    (state.draft.moveTo id).IsOpen :=
  (Ir.Draft.isOpen_iff_exit? _).mpr (guided.exit?_of_mem waits)

end State.Guided

/-! ## What statements do to the blocks around them -/

/-- What is the case after statements have been lowered, wherever they are: blocks that wait still do, edges
and labels are kept, and the loops are those around the statements. -/
structure State.Passed (state later : State) : Prop where
  settled : ∀ waiting, state.draft.Settled waiting → later.draft.Settled waiting
  grows : state.draft.function.Grows later.draft.function
  intended : ∀ id, state.draft.function.Intended id → later.draft.function.Intended id
  loops : later.loops = state.loops

theorem passed_of_runs {step : Step Unit}
    (runs : ∀ waiting, state.draft.Settled waiting →
      Runs context state.loops.targets ⟨state, [], waiting, []⟩ step fun _ finish =>
        Performed ⟨state, [], waiting, []⟩ finish)
    (settled : state.draft.Settled []) : step.Yields state fun _ later => state.Passed later := by
  constructor
  intro result later taken
  obtain ⟨finish, moves, rfl, performed⟩ := (runs [] settled).holds taken
  refine ⟨?_, moves.grows, fun _ => moves.intended, performed.loops⟩
  intro waiting more
  obtain ⟨last, moves, same, performed⟩ := (runs waiting more).holds taken
  have still := moves.settled more
  rw [Stage.Settled, performed.waiting, Stage.draft, same] at still
  exact still

theorem passed_statement (statement : Statement) (settled : state.draft.Settled [])
    (isOpen : state.draft.IsOpen) :
    (statement.lower context).Yields state fun _ later => state.Passed later :=
  passed_of_runs (fun waiting settled =>
    runs_statement statement ⟨settled, rfl, state.loops.lead_targets waiting⟩ isOpen) settled

theorem passed_statements (statements : List Statement) (settled : state.draft.Settled []) :
    (Statement.lowerEach context statements).Yields state fun _ later => state.Passed later :=
  passed_of_runs (fun waiting settled =>
    performs_statements statements ⟨settled, rfl, state.loops.lead_targets waiting⟩) settled

/-- What is the case after a statement. If nothing in it cuts off what comes after, it connects all that it
makes. -/
structure State.Guides (cut : Bool) (state later : State) : Prop where
  directed : later.draft.function.Directed
  connects : cut = false → ∀ pending, state.draft.Connected pending → later.draft.Connected pending

theorem State.Guides.mono {weaker : Bool} (guides : state.Guides cut later)
    (weaken : weaker = false → cut = false) : state.Guides weaker later :=
  ⟨guides.directed, fun uncut => guides.connects (weaken uncut)⟩

/-- Steps that can be taken wherever edges are directed. -/
def Step.Guides (cut : Bool) (step : Step Unit) : Prop :=
  ∀ ⦃state⦄, state.Guided [] → step.Yields state fun _ later =>
    state.Passed later ∧ state.Guides cut later

theorem Step.Guides.mono {step : Step Unit} {weaker : Bool} (guides : step.Guides cut)
    (weaken : weaker = false → cut = false) : step.Guides weaker := by
  intro state guided
  apply (guides guided).mono
  rintro _ later ⟨passed, guides⟩
  exact ⟨passed, guides.mono weaken⟩

theorem State.Guided.after (guided : state.Guided waiting) (passed : state.Passed later)
    (directed : later.draft.function.Directed) : later.Guided waiting where
  settled := passed.settled waiting guided.settled
  directed := directed
  loops := by
    rw [passed.loops]
    exact fun frame enclosing exit => passed.intended _ (guided.loops frame enclosing exit)
  meant id waits := passed.intended id (guided.meant id waits)

/-- A block of its own is no different from what is in it. -/
theorem Step.Guides.inBlock {step : Step Unit} (guides : step.Guides cut)
    (guided : state.Guided waiting) :
    (Step.inBlock step).Yields state fun _ later =>
      state.Passed later ∧ state.Guides cut later ∧ later.Guided waiting := by
  have inside := guided.inScope state.scope.enter
  apply Step.Yields.inBlock
  apply (guides inside.rest).mono
  rintro _ later ⟨passed, guides⟩
  exact ⟨⟨passed.settled, passed.grows, passed.intended, passed.loops⟩,
    ⟨guides.directed, guides.connects⟩, (inside.after passed guides.directed).inScope _⟩

/-- The exits of a loop lead to blocks that wait. -/
theorem Step.Guides.inLoop {step : Step Unit} (guides : step.Guides cut)
    (guided : state.Guided waiting) {frame : LoopFrame} (waits : ∀ exit, frame.target exit ∈ waiting) :
    (Step.inLoop frame (Step.inBlock step)).Yields state fun _ later =>
      state.Passed later ∧ state.Guides cut later ∧ later.Guided waiting := by
  have inside : ({ state with loops := state.loops.enter frame } : State).Guided waiting := by
    refine ⟨guided.settled, guided.directed, ?_, guided.meant⟩
    intro other enclosing exit
    rcases List.mem_cons.mp enclosing with rfl | enclosing
    · exact guided.meant _ (waits exit)
    · exact guided.loops other enclosing exit
  apply Step.Yields.inLoop
  apply (guides.inBlock inside).mono
  rintro _ later ⟨passed, guides, after⟩
  have left : later.loops.leave = state.loops := congrArg Loops.leave passed.loops
  refine ⟨⟨passed.settled, passed.grows, passed.intended, left⟩, ⟨guides.directed, guides.connects⟩,
    ⟨after.settled, after.directed, ?_, after.meant⟩⟩
  rw [left]
  exact fun frame enclosing exit => passed.intended _ (guided.loops frame enclosing exit)

end Lowering

end YulLowering
