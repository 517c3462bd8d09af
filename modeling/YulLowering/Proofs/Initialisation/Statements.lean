import YulLowering.Proofs.Initialisation.Expressions
import YulLowering.Proofs.Loops

/-!
# Statements write before they read

Between statements all visible variables have been written, wherever control can be. A block that a
statement makes asks for the variables that are visible there: control comes to it only from places where
at least these are visible. So the blocks that a loop exit leads to ask for those in front of the body of
the loop.
-/

namespace YulLowering.Lowering

variable {context : Context} {known more : List (List Ir.LocalId)} {state later : State}

/-! ## Places between statements -/

/-- All visible variables have been written. -/
def State.AllWritten (known : List (List Ir.LocalId)) (state : State) : Prop :=
  ∀ slot ∈ state.scope.slots, state.draft.HasWritten known slot

/-- Blocks ask for no more than what has been written, and the loops around ask for no more than the
visible variables. -/
structure State.Sound (known : List (List Ir.LocalId)) (state : State) : Prop where
  secures : state.draft.function.Secures known
  present : (known[state.draft.cursor.index]?).isSome
  loops : ∀ frame ∈ state.loops.enclosing, ∀ exit : LoopExit,
    ∃ needed, known[(frame.target exit).index]? = some needed ∧ needed ⊆ state.scope.slots

/-- Where control can go on, all visible variables have been written. -/
structure State.Safe (known : List (List Ir.LocalId)) (state : State) : Prop
    extends State.Sound known state where
  here : state.draft.isClosed = false → state.AllWritten known

theorem State.AllWritten.written (all : state.AllWritten known) (names : String → Bool) :
    state.Written known names :=
  fun _ binding _ found => all binding.slot (List.mem_map_of_mem (Scope.mem_of_lookup found).1)

theorem State.AllWritten.after (all : state.AllWritten known)
    (continues : Continues known state more later) : later.AllWritten more := by
  intro slot member
  rw [continues.scope] at member
  exact continues.keeps slot (all slot member)

namespace State.Sound

theorem here (sound : state.Sound known) : Continues known state known state :=
  .refl sound.secures sound.present

theorem after (sound : state.Sound known) (continues : Continues known state more later) :
    later.Sound more where
  secures := continues.secures
  present := continues.present
  loops := by
    rw [continues.loops, continues.scope]
    intro frame enclosing exit
    obtain ⟨needed, isKnown, within⟩ := sound.loops frame enclosing exit
    exact ⟨needed, Ir.getElem?_of_prefix continues.grow isKnown, within⟩

/-- What has been begun in between is left again. -/
theorem leave (sound : state.Sound known) (inner : later.Sound more) (grow : known <+: more)
    {scope : Scope} (within : state.scope.slots ⊆ scope.slots) :
    ({ later with scope := scope, loops := state.loops } : State).Sound more where
  secures := inner.secures
  present := inner.present
  loops := by
    intro frame enclosing exit
    obtain ⟨needed, isKnown, visible⟩ := sound.loops frame enclosing exit
    exact ⟨needed, Ir.getElem?_of_prefix grow isKnown, List.Subset.trans visible within⟩

theorem close (sound : state.Sound known) {terminator : Ir.Terminator}
    (leads : ∀ target ∈ terminator.successors, ∃ needed, known[target.index]? = some needed ∧
      ∀ slot ∈ needed, state.draft.HasWritten known slot) :
    ({ state with draft := state.draft.close terminator } : State).Sound known :=
  ⟨Ir.Draft.secures_close sound.secures leads, sound.present, sound.loops⟩

theorem moveTo (sound : state.Sound known) {block : Ir.BlockId} {written : List Ir.LocalId}
    (isKnown : known[block.index]? = some written) :
    ({ state with draft := state.draft.moveTo block } : State).Sound known where
  secures := sound.secures
  present := by
    show (known[block.index]?).isSome
    rw [isKnown]
    rfl
  loops := sound.loops

/-- Where the cursor comes to a block that asks for all visible variables, these have been written. -/
theorem enter (sound : state.Sound known) {block : Ir.BlockId} {written : List Ir.LocalId}
    (isKnown : known[block.index]? = some written) (enough : state.scope.slots ⊆ written) :
    ({ state with draft := state.draft.moveTo block } : State).AllWritten known :=
  fun _ member => Ir.Draft.hasWritten_moveTo sound.secures isKnown (enough member)

theorem safe (sound : state.Sound known) (all : state.AllWritten known) : state.Safe known :=
  ⟨sound, fun _ => all⟩

end State.Sound

/-- Control may fall through to a block that asks for no more than the visible variables. -/
theorem State.Safe.fallThrough (safe : state.Safe known) {target : Ir.BlockId}
    {needed : List Ir.LocalId} (isKnown : known[target.index]? = some needed)
    (within : needed ⊆ state.scope.slots) :
    ({ state with draft := state.draft.fallThrough target } : State).Sound known := by
  unfold Ir.Draft.fallThrough
  cases isClosed : state.draft.isClosed with
  | true => exact safe.toSound
  | false =>
      refine safe.toSound.close ?_
      intro other isTarget
      obtain rfl := List.mem_singleton.mp isTarget
      exact ⟨needed, isKnown, fun slot member => safe.here isClosed slot (within member)⟩

theorem State.Safe.after (safe : state.Safe known) (continues : Continues known state more later) :
    later.Safe more where
  toSound := safe.toSound.after continues
  here := by
    rw [continues.isClosed]
    exact fun isOpen => (safe.here isOpen).after continues

/-- Control goes on from one block to another, and the cursor goes to a block too, where all of these
ask for the visible variables. -/
theorem State.Safe.goOn (safe : state.Safe known) {target block : Ir.BlockId}
    (targetKnown : known[target.index]? = some state.scope.slots)
    (isKnown : known[block.index]? = some state.scope.slots) :
    ({ state with draft := (state.draft.fallThrough target).moveTo block } : State).Sound known ∧
      ({ state with draft := (state.draft.fallThrough target).moveTo block } : State).AllWritten
        known := by
  have left := safe.fallThrough targetKnown (List.Subset.refl _)
  exact ⟨left.moveTo isKnown, left.enter isKnown (List.Subset.refl _)⟩

/-- What holds after a statement, or after several. -/
structure Proceeds (known : List (List Ir.LocalId)) (state : State)
    (more : List (List Ir.LocalId)) (later : State) : Prop where
  grow : known <+: more
  safe : later.Safe more
  loops : later.loops = state.loops
  scope : state.scope.Extends later.scope

theorem Scope.Extends.slots {scope last : Scope} (extended : scope.Extends last) :
    scope.slots ⊆ last.slots :=
  List.map_subset _ extended.bindings.subset

theorem Proceeds.trans {middle : State} {between : List (List Ir.LocalId)}
    (first : Proceeds known state between middle) (second : Proceeds between middle more later) :
    Proceeds known state more later :=
  ⟨first.grow.trans second.grow, second.safe, second.loops.trans first.loops,
    first.scope.trans second.scope⟩

/-- A step that can be taken wherever all visible variables have been written. -/
def Step.Keeps (step : Step Unit) : Prop :=
  ∀ ⦃known state⦄, state.Safe known →
    step.Yields state fun _ later => ∃ more, Proceeds known state more later

theorem Step.Keeps.inBlock {step : Step Unit} (keeps : step.Keeps) (safe : state.Safe known) :
    (Step.inBlock step).Yields state fun _ later =>
      ∃ more, Proceeds known state more later ∧ later.scope = state.scope := by
  have inside : ({ state with scope := state.scope.enter } : State).Safe known :=
    ⟨⟨safe.secures, safe.present, safe.loops⟩, safe.here⟩
  apply Step.Yields.inBlock
  apply (keeps inside).mono
  rintro _ later ⟨more, proceeds⟩
  have left : later.scope.leave = state.scope := proceeds.scope.leave_eq
  have sound := safe.toSound.leave proceeds.safe.toSound proceeds.grow
    (List.Subset.refl state.scope.slots)
  refine ⟨more, ⟨proceeds.grow, ⟨?_, ?_⟩, proceeds.loops, ?_⟩, left⟩
  · rw [left, show later.loops = state.loops from proceeds.loops]
    exact sound
  · intro isOpen slot member
    rw [left] at member
    exact proceeds.safe.here isOpen slot (proceeds.scope.slots member)
  · rw [left]
    exact .refl _

/-- In a loop, control may also go to the blocks for its exits. -/
theorem Step.Keeps.inLoop {step : Step Unit} (keeps : step.Keeps) (safe : state.Safe known)
    {frame : LoopFrame}
    (isKnown : ∀ exit, known[(frame.target exit).index]? = some state.scope.slots) :
    (Step.inLoop frame (Step.inBlock step)).Yields state fun _ later =>
      ∃ more, Proceeds known state more later ∧ later.scope = state.scope := by
  have inside : ({ state with loops := state.loops.enter frame } : State).Safe known := by
    refine ⟨⟨safe.secures, safe.present, ?_⟩, safe.here⟩
    intro other enclosing exit
    rcases List.mem_cons.mp enclosing with rfl | enclosing
    · exact ⟨_, isKnown exit, List.Subset.refl _⟩
    · exact safe.loops other enclosing exit
  apply Step.Yields.inLoop
  apply (keeps.inBlock inside).mono
  rintro _ later ⟨more, proceeds, scope⟩
  have left : later.loops.leave = state.loops := congrArg Loops.leave proceeds.loops
  have sound := safe.toSound.leave proceeds.safe.toSound proceeds.grow proceeds.scope.slots
  refine ⟨more, ⟨proceeds.grow, ⟨?_, proceeds.safe.here⟩, left, proceeds.scope⟩, scope⟩
  rw [left]
  exact sound

theorem continues_newBlock (continues : Continues known state more later) (label : String)
    (written : List Ir.LocalId) :
    (newBlock label).Yields later fun block last =>
      Continues known state (more ++ [written]) last ∧
        (more ++ [written])[block.index]? = some written := by
  apply Step.Yields.write
  have number : later.draft.nextBlock.index = more.length := continues.secures.length.symm
  refine ⟨⟨continues.grow.trans (List.prefix_append _ _),
    Ir.Draft.secures_newBlock continues.secures label written, ?_, continues.scope,
    continues.loops, (Ir.Draft.isClosed_newBlock _ _).trans continues.isClosed, ?_⟩, ?_⟩
  · obtain ⟨content, isKnown⟩ := Option.isSome_iff_exists.mp continues.present
    show ((more ++ [written])[later.draft.cursor.index]?).isSome
    rw [Ir.getElem?_of_prefix (List.prefix_append more [written]) isKnown]
    rfl
  · intro slot hasWritten
    exact (continues.keeps slot hasWritten).newBlock label [written]
  · rw [Ir.Draft.newBlock_fst, number]
    exact List.getElem?_concat_length

/-- The next statement is put where all visible variables have been written, or where control never
comes. -/
theorem State.Safe.openBlock (safe : state.Safe known) :
    openBlock.Yields state fun _ later =>
      ∃ more, Proceeds known state more later ∧ later.AllWritten more := by
  apply Step.Yields.inspect_bind
  cases isClosed : state.draft.isClosed with
  | false =>
      exact .pure ⟨known, ⟨List.prefix_refl _, safe, rfl, .refl _⟩, safe.here isClosed⟩
  | true =>
      apply Step.Yields.bind (continues_newBlock safe.toSound.here "unreachable" state.scope.slots)
      rintro block later ⟨continues, isKnown⟩
      have sound := safe.toSound.after continues
      have enough : later.scope.slots ⊆ state.scope.slots := continues.slots
      apply Step.Yields.modify
      have all := sound.enter isKnown enough
      refine ⟨_, ⟨continues.grow, (sound.moveTo isKnown).safe all, continues.loops, ?_⟩, all⟩
      show state.scope.Extends later.scope
      rw [continues.scope]
      exact .refl _

/-! ## Statements -/

theorem continues_lowerToCondition (condition : Expression)
    (here : Continues known state known state) (all : state.AllWritten known) :
    (condition.lowerToCondition context).Yields state fun _ later =>
      Continues known state known later := by
  apply Step.Yields.bind (continues_lower condition here (all.written _))
  intro operand later evaluated
  apply Step.Yields.write
  cases isBool : operand.type.isBool with
  | true =>
      rw [Ir.Draft.toCondition, if_pos isBool]
      exact evaluated
  | false =>
      rw [Ir.Draft.toCondition_eq _ _ isBool]
      exact evaluated.write _ fun _ loads => by cases loads

theorem continues_perform (expression : Expression) (here : Continues known state known state)
    (all : state.AllWritten known) :
    (expression.perform context).Yields state fun _ later => Continues known state known later := by
  have evaluates (other : Expression) :
      (do let _ ← other.lower context).Yields state fun _ later =>
        Continues known state known later :=
    .bind (continues_lower other here (all.written _)) fun _ _ evaluated => .pure evaluated
  cases expression with
  | call callee arguments =>
      apply Step.Yields.ofExcept_bind
      intro target _
      apply Step.Yields.bind
        (continues_invokeWith here (continues_lowerEach arguments here (all.written _)))
      intro outcome later called
      exact .pure called
  | identifier name => exact evaluates (.identifier name)
  | literal literal => exact evaluates (.literal literal)
  | instructionCall mnemonic arguments => exact evaluates (.instructionCall mnemonic arguments)
  | instruction mnemonic => exact evaluates (.instruction mnemonic)

/-- Variables have been declared and not been written yet. -/
structure Introduces (known : List (List Ir.LocalId)) (state : State) (declared : List String)
    (targets : List Binding) (later : State) : Prop where
  secures : later.draft.function.Secures known
  cursor : later.draft.cursor = state.draft.cursor
  loops : later.loops = state.loops
  openings : later.scope.openings = state.scope.openings
  bindings : later.scope.bindings = state.scope.bindings ++ targets
  names : targets.map Binding.name = declared
  keeps : ∀ slot, state.draft.HasWritten known slot → later.draft.HasWritten known slot

theorem introduces_declareAll (declared : List TypedName)
    (secures : state.draft.function.Secures known) :
    (declareAll context declared).Yields state fun bindings later =>
      Introduces known state (declared.map TypedName.name) bindings later := by
  induction declared generalizing state with
  | nil => exact .pure ⟨secures, rfl, rfl, rfl, (List.append_nil _).symm, rfl, fun _ => id⟩
  | cons head rest ih =>
      obtain ⟨name, typeName⟩ := head
      apply Step.Yields.ofExcept_bind
      intro type _
      apply Step.Yields.declare_bind
      apply Step.Yields.bind (ih (Ir.Draft.secures_reserve secures name type))
      intro bindings last others
      refine .pure ⟨others.secures, others.cursor, others.loops, others.openings, ?_, ?_, ?_⟩
      · rw [others.bindings]
        simp [State.declared, Scope.bind]
      · exact congrArg (name :: ·) others.names
      · intro slot hasWritten
        exact others.keeps slot (hasWritten.reserve name type)

/-- An initialiser that reads none of the variables it is for finds everything written that it reads. -/
theorem keeps_declaration (declared : List TypedName) (value : Expression)
    (proper : ∀ target ∈ declared, value.mentions target.name = false) (sound : state.Sound known)
    (all : state.AllWritten known) :
    ((Statement.declaration declared (some value)).lower context).Yields state fun _ later =>
      ∃ more, Proceeds known state more later := by
  rw [Statement.lower]
  apply Step.Yields.bind (introduces_declareAll declared sound.secures)
  intro targets middle declares
  have present : (known[middle.draft.cursor.index]?).isSome := by
    rw [declares.cursor]
    exact sound.present
  have written : middle.Written known (value.mentions ·) := by
    intro name binding isName found
    obtain ⟨visible, rfl⟩ := Scope.mem_of_lookup found
    rw [declares.bindings] at visible
    rcases List.mem_append.mp visible with old | new
    · exact declares.keeps _ (all _ (List.mem_map_of_mem old))
    · have named := List.mem_map_of_mem (f := Binding.name) new
      rw [declares.names] at named
      obtain ⟨target, isTarget, sameName⟩ := List.mem_map.mp named
      have unread := proper target isTarget
      rw [sameName] at unread
      exact absurd isName (by simp [unread])
  apply (continues_assign targets value (.refl declares.secures present) written).mono
  rintro _ later ⟨continues, areWritten⟩
  have extended : state.scope.Extends later.scope := by
    rw [continues.scope]
    exact ⟨⟨targets, declares.bindings.symm⟩, declares.openings⟩
  have here : later.AllWritten known := by
    intro slot member
    obtain ⟨binding, visible, rfl⟩ := List.mem_map.mp member
    rw [continues.scope, declares.bindings] at visible
    rcases List.mem_append.mp visible with old | new
    · exact continues.keeps _ (declares.keeps _ (all _ (List.mem_map_of_mem old)))
    · exact areWritten binding new
  have loops : later.loops = state.loops := continues.loops.trans declares.loops
  have stillSound : later.Sound known := by
    refine ⟨continues.secures, continues.present, ?_⟩
    rw [loops]
    intro frame enclosing exit
    obtain ⟨needed, isKnown, within⟩ := sound.loops frame enclosing exit
    exact ⟨needed, isKnown, List.Subset.trans within extended.slots⟩
  exact ⟨known, List.prefix_refl _, stillSound.safe here, loops, extended⟩

/-- Where nothing but code has been written, all visible variables still have been. -/
theorem Continues.proceeds (continues : Continues known state more later) (sound : state.Sound known)
    (all : state.AllWritten known) : Proceeds known state more later where
  grow := continues.grow
  safe := (sound.after continues).safe (all.after continues)
  loops := continues.loops
  scope := by
    rw [continues.scope]
    exact .refl _

theorem keeps_leaveIteration (exit : LoopExit) (sound : state.Sound known)
    (all : state.AllWritten known) :
    (leaveIteration exit).Yields state fun _ later => ∃ more, Proceeds known state more later := by
  apply Step.Yields.inspect_bind
  apply Step.Yields.ofExcept_bind
  intro target isTarget
  obtain ⟨frame, innermost, rfl⟩ := Loops.innermost_of_target isTarget
  obtain ⟨needed, isKnown, within⟩ :=
    sound.loops frame (List.mem_of_mem_head? innermost) exit
  obtain ⟨block, found⟩ := sound.secures.exists_block (Option.isSome_iff_exists.mp sound.present).choose_spec
  apply Step.Yields.modify
  have left : ({ state with draft := state.draft.jump (frame.target exit) } : State).Sound known := by
    refine sound.close ?_
    intro other leads
    obtain rfl := List.mem_singleton.mp leads
    exact ⟨needed, isKnown, fun slot member => all slot (within member)⟩
  refine ⟨known, List.prefix_refl _, ⟨left, ?_⟩, rfl, .refl _⟩
  intro isOpen
  simp [Ir.Draft.jump, Ir.Draft.isClosed, Ir.Draft.block?_close, found] at isOpen

theorem keeps_conditional (condition : Expression) (body : List Statement)
    (keepsBody : (Statement.lowerEach context body).Keeps) (sound : state.Sound known)
    (all : state.AllWritten known) :
    ((Statement.conditional condition body).lower context).Yields state fun _ later =>
      ∃ more, Proceeds known state more later := by
  rw [Statement.lower]
  apply Step.Yields.bind (continues_lowerToCondition condition sound.here all)
  intro value evaluated atValue
  apply Step.Yields.bind (continues_newBlock atValue "if.then" state.scope.slots)
  rintro onTrue _ ⟨atThen, thenKnown⟩
  apply Step.Yields.bind (continues_newBlock atThen "if.end" state.scope.slots)
  rintro done made ⟨atEnd, doneKnown⟩
  have thenKnown := Ir.getElem?_of_prefix (List.prefix_append _ [state.scope.slots]) thenKnown
  generalize known ++ [state.scope.slots] ++ [state.scope.slots] = among at *
  have leads : ∀ target ∈ [onTrue, done], ∃ needed, among[target.index]? = some needed ∧
      ∀ slot ∈ needed, made.draft.HasWritten among slot := by
    have written : ∀ slot ∈ state.scope.slots, made.draft.HasWritten among slot :=
      fun slot member => atEnd.keeps slot (all slot member)
    simpa [thenKnown, doneKnown] using written
  have closed : ({ made with draft := made.draft.close (.branch value onTrue done) } : State).Sound
      among := (sound.after atEnd).close leads
  apply Step.Yields.modify_bind
  have entered := (closed.moveTo thenKnown).safe (closed.enter thenKnown atEnd.slots)
  apply Step.Yields.bind (keepsBody.inBlock entered)
  rintro _ inside ⟨more, proceeds, scope⟩
  have scopeEq : inside.scope = state.scope := scope.trans atEnd.scope
  have doneKnown := Ir.getElem?_of_prefix proceeds.grow doneKnown
  rw [← scopeEq] at doneKnown
  obtain ⟨left, written⟩ := proceeds.safe.goOn doneKnown doneKnown
  apply Step.Yields.modify
  refine ⟨more, atEnd.grow.trans proceeds.grow, left.safe written,
    proceeds.loops.trans atEnd.loops, ?_⟩
  show state.scope.Extends inside.scope
  rw [scopeEq]
  exact .refl _

/-! ## Switches -/

/-- The blocks of a switch ask for the variables that are visible in front of it. -/
structure ArmsKnown (known : List (List Ir.LocalId)) (written : List Ir.LocalId)
    (blocks : SwitchBlocks) : Prop where
  arms : ∀ block ∈ blocks.arms, known[block.index]? = some written
  constants : ∀ arm ∈ blocks.constants, arm.2 ∈ blocks.arms
  default : ∀ block ∈ blocks.default, block ∈ blocks.arms

theorem continues_newArms (scrutinee : Ir.Value) (cases : List Case) (written : List Ir.LocalId)
    (continues : Continues known state more later) :
    (newArms scrutinee cases).Yields later fun blocks last =>
      ∃ most, Continues known state most last ∧ more <+: most ∧ ArmsKnown most written blocks := by
  induction cases generalizing more later with
  | nil => exact .pure ⟨more, continues, List.prefix_refl _, ⟨by simp, by simp, by simp⟩⟩
  | cons arm rest ih =>
      obtain ⟨value, body⟩ := arm
      cases value with
      | some literal =>
          apply Step.Yields.bind (continues_newBlock continues "switch.case" written)
          rintro block _ ⟨made, isKnown⟩
          apply Step.Yields.ofExcept_bind
          intro constant _
          apply Step.Yields.bind (ih made)
          rintro blocks last ⟨most, others, grow, armsKnown⟩
          refine .pure ⟨most, others, (List.prefix_append _ _).trans grow, ?_, ?_, ?_⟩
          · exact List.forall_mem_cons.mpr ⟨Ir.getElem?_of_prefix grow isKnown, armsKnown.arms⟩
          · exact List.forall_mem_cons.mpr ⟨List.mem_cons_self, fun arm isArm =>
              List.mem_cons_of_mem _ (armsKnown.constants arm isArm)⟩
          · exact fun other isDefault => List.mem_cons_of_mem _ (armsKnown.default other isDefault)
      | none =>
          apply Step.Yields.bind (continues_newBlock continues "switch.default" written)
          rintro block _ ⟨made, isKnown⟩
          apply Step.Yields.bind (ih made)
          rintro blocks last ⟨most, others, grow, armsKnown⟩
          refine .pure ⟨most, others, (List.prefix_append _ _).trans grow, ?_, ?_, ?_⟩
          · exact List.forall_mem_cons.mpr ⟨Ir.getElem?_of_prefix grow isKnown, armsKnown.arms⟩
          · exact fun arm isArm => List.mem_cons_of_mem _ (armsKnown.constants arm isArm)
          · intro other isDefault
            obtain rfl := Option.some.inj isDefault
            cases later : blocks.default with
            | none => exact List.mem_cons_self
            | some last => exact List.mem_cons_of_mem _ (armsKnown.default last later)

/-- The bodies of a switch start where the variables in front of it are visible, and end there too. -/
theorem keeps_cases (cases : List Case) {done : Ir.BlockId} {blocks : List Ir.BlockId}
    (keeps : ∀ case_ ∈ cases, (Statement.lowerEach context case_.body).Keeps)
    (sound : state.Sound known) (isDone : known[done.index]? = some state.scope.slots)
    (areKnown : ∀ block ∈ blocks, known[block.index]? = some state.scope.slots) :
    (Case.lowerEach context done cases blocks).Yields state fun _ later =>
      ∃ more, known <+: more ∧ later.Sound more ∧ later.loops = state.loops ∧
        later.scope = state.scope := by
  have ends : (pure () : Step Unit).Yields state fun _ later =>
      ∃ more, known <+: more ∧ later.Sound more ∧ later.loops = state.loops ∧
        later.scope = state.scope := .pure ⟨known, List.prefix_refl _, sound, rfl, rfl⟩
  induction cases generalizing known state blocks with
  | nil =>
      rw [Case.lowerEach]
      · exact ends
      · rintro _ _ _ _ _ ⟨⟩
  | cons first cases ih =>
      obtain ⟨value, body⟩ := first
      obtain ⟨keepsBody, keepsRest⟩ := List.forall_mem_cons.mp keeps
      cases blocks with
      | nil =>
          rw [Case.lowerEach]
          · exact ends
          · rintro _ _ _ _ _ _ ⟨⟩
      | cons block blocks =>
          obtain ⟨isKnown, othersKnown⟩ := List.forall_mem_cons.mp areKnown
          rw [Case.lowerEach]
          apply Step.Yields.modify_bind
          have entered := (sound.moveTo isKnown).safe (sound.enter isKnown (List.Subset.refl _))
          apply Step.Yields.bind (keepsBody.inBlock entered)
          rintro _ inside ⟨more, proceeds, scope⟩
          have scope : inside.scope = state.scope := scope
          have visible : state.scope.slots ⊆ inside.scope.slots := by
            rw [scope]
            exact List.Subset.refl _
          have left := proceeds.safe.fallThrough (Ir.getElem?_of_prefix proceeds.grow isDone) visible
          apply Step.Yields.modify_bind
          have later {block : Ir.BlockId} (isKnown : known[block.index]? = some state.scope.slots) :
              more[block.index]? = some inside.scope.slots := by
            rw [scope]
            exact Ir.getElem?_of_prefix proceeds.grow isKnown
          apply (ih keepsRest left (later isDone) (fun block member => later (othersKnown block member))
            (.pure ⟨more, List.prefix_refl _, left, rfl, rfl⟩)).mono
          rintro _ last ⟨most, grow, lastSound, loops, lastScope⟩
          exact ⟨most, proceeds.grow.trans grow, lastSound, loops.trans proceeds.loops,
            lastScope.trans scope⟩

theorem keeps_switch (scrutinee : Expression) (cases : List Case)
    (keeps : ∀ case_ ∈ cases, (Statement.lowerEach context case_.body).Keeps)
    (sound : state.Sound known) (all : state.AllWritten known) :
    ((Statement.switch scrutinee cases).lower context).Yields state fun _ later =>
      ∃ more, Proceeds known state more later := by
  rw [Statement.lower]
  apply Step.Yields.bind (continues_lower scrutinee sound.here (all.written _))
  intro value _ evaluated
  apply Step.Yields.bind (continues_newBlock evaluated "switch.end" state.scope.slots)
  rintro done _ ⟨withEnd, doneKnown⟩
  apply Step.Yields.bind (continues_newArms value cases state.scope.slots withEnd)
  rintro blocks made ⟨among, continues, grow, armsKnown⟩
  have doneKnown := Ir.getElem?_of_prefix grow doneKnown
  have leads : ∀ target ∈
      (Ir.Terminator.switch value blocks.constants (blocks.default.getD done)).successors,
      ∃ needed, among[target.index]? = some needed ∧
        ∀ slot ∈ needed, made.draft.HasWritten among slot := by
    intro target isTarget
    have isKnown : among[target.index]? = some state.scope.slots := by
      rcases List.mem_append.mp isTarget with isArm | isDefault
      · obtain ⟨arm, member, rfl⟩ := List.mem_map.mp isArm
        exact armsKnown.arms _ (armsKnown.constants arm member)
      · obtain rfl := List.mem_singleton.mp isDefault
        cases default : blocks.default with
        | none => exact doneKnown
        | some block => exact armsKnown.arms _ (armsKnown.default block default)
    exact ⟨_, isKnown, fun slot member => continues.keeps slot (all slot member)⟩
  have closed := (sound.after continues).close leads
  apply Step.Yields.modify_bind
  have known_of {block : Ir.BlockId} (isKnown : among[block.index]? = some state.scope.slots) :
      among[block.index]? = some made.scope.slots := by
    rw [continues.scope]
    exact isKnown
  apply Step.Yields.bind (keeps_cases cases keeps closed (known_of doneKnown)
    fun block member => known_of (armsKnown.arms block member))
  rintro _ last ⟨more, growMore, lastSound, loops, scope⟩
  have scopeEq : last.scope = state.scope := scope.trans continues.scope
  have doneKnown := Ir.getElem?_of_prefix growMore doneKnown
  apply Step.Yields.modify
  refine ⟨more, continues.grow.trans growMore, (lastSound.moveTo doneKnown).safe
    (lastSound.enter doneKnown ?_), loops.trans continues.loops, ?_⟩
  · rw [scopeEq]
    exact List.Subset.refl _
  · show state.scope.Extends last.scope
    rw [scopeEq]
    exact .refl _

/-! ## Loops -/

/-- The blocks of a loop all ask for the same variables. -/
theorem continues_loopBlocks {α : Type} {post : α → State → Prop}
    {next : Ir.BlockId → Ir.BlockId → Ir.BlockId → Ir.BlockId → Step α}
    (here : Continues known state known state) (written : List Ir.LocalId)
    (goesOn : ∀ head body step done more made, Continues known state more made →
      (∀ block ∈ [head, body, step, done], more[block.index]? = some written) →
      (next head body step done).Yields made post) :
    (withLoopBlocks next).Yields state post := by
  rw [withLoopBlocks]
  have still {more : List (List Ir.LocalId)} {blocks : List Ir.BlockId}
      (areKnown : ∀ block ∈ blocks, more[block.index]? = some written) :
      ∀ block ∈ blocks, (more ++ [written])[block.index]? = some written :=
    fun block member => Ir.getElem?_of_prefix (List.prefix_append _ _) (areKnown block member)
  apply Step.Yields.bind (continues_newBlock here "for.cond" written)
  rintro head _ ⟨withHead, headKnown⟩
  apply Step.Yields.bind (continues_newBlock withHead "for.body" written)
  rintro body _ ⟨withBody, bodyKnown⟩
  apply Step.Yields.bind (continues_newBlock withBody "for.post" written)
  rintro step _ ⟨withStep, stepKnown⟩
  apply Step.Yields.bind (continues_newBlock withStep "for.exit" written)
  rintro done made ⟨withDone, doneKnown⟩
  have first := still (List.forall_mem_singleton.mpr stepKnown)
  have second := still (still (List.forall_mem_singleton.mpr bodyKnown))
  have third := still (still (still (List.forall_mem_singleton.mpr headKnown)))
  apply goesOn head body step done _ made withDone
  simp_all

/-- The condition, the body and the step of a loop, and what comes after it, all start where the same
variables are visible. -/
theorem keeps_rounds (condition : Expression) (advance inside : List Statement)
    {head body step done : Ir.BlockId}
    (keepsStep : (Statement.lowerEach context advance).Keeps)
    (keepsBody : (Statement.lowerEach context inside).Keeps) (safe : state.Safe known)
    (areKnown : ∀ block ∈ [head, body, step, done],
      known[block.index]? = some state.scope.slots) :
    (loopRounds head body step done (condition.lowerToCondition context)
      (Statement.lowerEach context inside) (Statement.lowerEach context advance)).Yields state
        fun _ later => ∃ more, Proceeds known state more later := by
  rw [loopRounds]
  have still {more : List (List Ir.LocalId)} {last : State} (grow : known <+: more)
      (scope : last.scope = state.scope) :
      ∀ block ∈ [head, body, step, done], more[block.index]? = some last.scope.slots := by
    rw [scope]
    exact fun block member => Ir.getElem?_of_prefix grow (areKnown block member)
  have headKnown := areKnown head (by simp)
  obtain ⟨atHead, headWritten⟩ := safe.goOn headKnown headKnown
  apply Step.Yields.modify_bind
  apply Step.Yields.bind (continues_lowerToCondition condition atHead.here headWritten)
  intro value evaluated atValue
  have evaluatedScope : evaluated.scope = state.scope := atValue.scope
  have evaluatedKnown := still (List.prefix_refl known) evaluatedScope
  have written := headWritten.after atValue
  have leads : ∀ target ∈ [body, done], ∃ needed, known[target.index]? = some needed ∧
      ∀ slot ∈ needed, evaluated.draft.HasWritten known slot := by
    intro target isTarget
    refine ⟨_, evaluatedKnown target ?_, written⟩
    rcases List.mem_cons.mp isTarget with rfl | isDone
    · simp
    · simp [List.mem_singleton.mp isDone]
  have closed : ({ evaluated with draft := evaluated.draft.close (.branch value body done) } :
      State).Sound known := (atHead.after atValue).close leads
  have bodyKnown := evaluatedKnown body (by simp)
  have entered := (closed.moveTo bodyKnown).safe (closed.enter bodyKnown (List.Subset.refl _))
  apply Step.Yields.modify_bind
  apply Step.Yields.bind (keepsBody.inLoop entered fun exit => by
    cases exit <;> exact evaluatedKnown _ (by simp [LoopFrame.target]))
  rintro _ afterBody ⟨among, inBody, bodyScope⟩
  have afterScope : afterBody.scope = state.scope := bodyScope.trans evaluatedScope
  have stepKnown := still inBody.grow afterScope step (by simp)
  obtain ⟨atStep, stepWritten⟩ := inBody.safe.goOn stepKnown stepKnown
  apply Step.Yields.modify_bind
  apply Step.Yields.bind (keepsStep.inBlock (atStep.safe stepWritten))
  rintro _ afterStep ⟨more, inStep, stepScope⟩
  have lastScope : afterStep.scope = state.scope := stepScope.trans afterScope
  have lastKnown := still (inBody.grow.trans inStep.grow) lastScope
  obtain ⟨left, leftWritten⟩ :=
    inStep.safe.goOn (lastKnown head (by simp)) (lastKnown done (by simp))
  apply Step.Yields.modify
  refine ⟨more, inBody.grow.trans inStep.grow, left.safe leftWritten, ?_, ?_⟩
  · exact (inStep.loops.trans inBody.loops).trans atValue.loops
  · show state.scope.Extends afterStep.scope
    rw [lastScope]
    exact .refl _

theorem keeps_loop (init : List Statement) (condition : Expression) (advance body : List Statement)
    (keepsInit : (Statement.lowerEach context init).Keeps)
    (keepsStep : (Statement.lowerEach context advance).Keeps)
    (keepsBody : (Statement.lowerEach context body).Keeps) (sound : state.Sound known)
    (all : state.AllWritten known) :
    ((Statement.loop init condition advance body).lower context).Yields state fun _ later =>
      ∃ more, Proceeds known state more later := by
  rw [Statement.lower_loop]
  apply Step.Yields.bind (continues_newBlock sound.here "for.init" state.scope.slots)
  rintro initBlock made ⟨continues, initKnown⟩
  have closed : ({ made with draft := made.draft.jump initBlock } : State).Sound
      (known ++ [state.scope.slots]) := by
    refine (sound.after continues).close ?_
    intro target isTarget
    obtain rfl := List.mem_singleton.mp isTarget
    exact ⟨_, initKnown, fun slot member => continues.keeps slot (all slot member)⟩
  apply Step.Yields.modify_bind
  have entered := (closed.moveTo initKnown).safe (closed.enter initKnown continues.slots)
  have keeps : Step.Keeps (do
      Statement.lowerEach context init
      withLoopBlocks fun head bodyBlock stepBlock done =>
        loopRounds head bodyBlock stepBlock done (condition.lowerToCondition context)
          (Statement.lowerEach context body) (Statement.lowerEach context advance)) := by
    intro before begun safe
    apply Step.Yields.bind (keepsInit safe)
    rintro _ afterInit ⟨first, atInit⟩
    apply continues_loopBlocks atInit.safe.toSound.here afterInit.scope.slots
    intro head bodyBlock stepBlock done among last withBlocks areKnown
    rw [← withBlocks.scope] at areKnown
    apply (keeps_rounds condition advance body keepsStep keepsBody (atInit.safe.after withBlocks)
      areKnown).mono
    rintro _ later ⟨more, rounds⟩
    have made : Proceeds first afterInit among last :=
      ⟨withBlocks.grow, atInit.safe.after withBlocks, withBlocks.loops, by
        rw [withBlocks.scope]
        exact .refl _⟩
    exact ⟨more, (atInit.trans made).trans rounds⟩
  apply (keeps.inBlock entered).mono
  rintro _ later ⟨more, proceeds, -⟩
  refine ⟨more, continues.grow.trans proceeds.grow, proceeds.safe,
    proceeds.loops.trans continues.loops, ?_⟩
  rw [← continues.scope]
  exact proceeds.scope

mutual

/-- Where all visible variables have been written, statements read nothing else. -/
theorem keeps_statement {arity : String → Option Nat} : (statement : Statement) →
    statement.isProper arity false = true → ∀ {known state}, state.Sound known →
    state.AllWritten known → (statement.lower context).Yields state fun _ later =>
      ∃ more, Proceeds known state more later
  | .block body, proper, _, _, sound, all => by
      rw [Statement.isProper] at proper
      rw [Statement.lower]
      apply ((keeps_statements body proper).inBlock (sound.safe all)).mono
      rintro _ later ⟨more, proceeds, -⟩
      exact ⟨more, proceeds⟩
  | .declaration declared none, proper, known, _, sound, all => by
      obtain rfl : declared = [] := by simpa [Statement.isProper] using proper
      rw [Statement.lower]
      exact .pure ⟨known, List.prefix_refl _, sound.safe all, rfl, .refl _⟩
  | .declaration declared (some value), proper, _, _, sound, all => by
      simp only [Statement.isProper, Bool.and_eq_true, List.all_eq_true,
        Bool.not_eq_eq_eq_not, Bool.not_true] at proper
      exact keeps_declaration declared value proper.1 sound all
  | .assignment names value, _, known, state, sound, all => by
      rw [Statement.lower]
      apply Step.Yields.bind (.lookups names)
      rintro targets _ ⟨rfl, -⟩
      apply (continues_assign targets value sound.here (all.written _)).mono
      rintro _ later ⟨continues, -⟩
      exact ⟨known, continues.proceeds sound all⟩
  | .expression expression, _, known, _, sound, all => by
      rw [Statement.lower]
      apply (continues_perform expression sound.here all).mono
      intro _ later continues
      exact ⟨known, continues.proceeds sound all⟩
  | .conditional condition body, proper, _, _, sound, all => by
      simp only [Statement.isProper, Bool.and_eq_true] at proper
      exact keeps_conditional condition body (keeps_statements body proper.2) sound all
  | .switch scrutinee cases, proper, _, _, sound, all => by
      simp only [Statement.isProper, Bool.and_eq_true] at proper
      exact keeps_switch scrutinee cases (keeps_bodies cases proper.2) sound all
  | .loop init condition step body, proper, _, _, sound, all => by
      simp only [Statement.isProper, Bool.and_eq_true] at proper
      obtain ⟨⟨⟨properInit, -⟩, properStep⟩, properBody⟩ := proper
      exact keeps_loop init condition step body (keeps_statements init properInit)
        (keeps_statements step properStep) (keeps_statements body properBody) sound all
  | .breakLoop, _, _, _, sound, all => by
      rw [Statement.lower]
      exact keeps_leaveIteration .breakLoop sound all
  | .continueLoop, _, _, _, sound, all => by
      rw [Statement.lower]
      exact keeps_leaveIteration .continueLoop sound all
  | .definition name _ _ _, _, _, _, _, _ => by
      rw [Statement.lower]
      exact .throw _
  | .label _, _, _, _, _, _ => by
      rw [Statement.lower]
      exact .throw _
  | .stackAssignment _, _, _, _, _, _ => by
      rw [Statement.lower]
      exact .throw _

theorem keeps_statements {arity : String → Option Nat} : (statements : List Statement) →
    Statement.areProper arity false statements = true →
    (Statement.lowerEach context statements).Keeps
  | [], _ => by
      intro known state safe
      rw [Statement.lowerEach]
      exact .pure ⟨known, List.prefix_refl _, safe, rfl, .refl _⟩
  | statement :: rest, proper => by
      simp only [Statement.areProper, Bool.and_eq_true] at proper
      intro known state safe
      rw [Statement.lowerEach]
      apply Step.Yields.bind safe.openBlock
      rintro _ opened ⟨first, opens, all⟩
      apply Step.Yields.bind (keeps_statement statement proper.1 opens.safe.toSound all)
      rintro _ middle ⟨second, performs⟩
      apply (keeps_statements rest proper.2 performs.safe).mono
      rintro _ later ⟨more, others⟩
      exact ⟨more, (opens.trans performs).trans others⟩

theorem keeps_bodies {arity : String → Option Nat} : (cases : List Case) →
    Case.areProper arity false cases = true →
    ∀ case_ ∈ cases, (Statement.lowerEach context case_.body).Keeps
  | [], _, case_, member => by cases member
  | ⟨_, body⟩ :: rest, proper, case_, member => by
      simp only [Case.areProper, Bool.and_eq_true] at proper
      rcases List.mem_cons.mp member with rfl | member
      · exact keeps_statements body proper.1
      · exact keeps_bodies rest proper.2 case_ member

end

end YulLowering.Lowering
