import YulLowering.Proofs.StatementRuns

/-!
# What holds after a step that succeeds

A step of a lowering is a program of its own, and rules take apart what it does: a condition that holds
of the result and of the state after it is shown along the way in which the step is put together. Steps
that fail are not spoken of.
-/

namespace YulLowering.Lowering.Step

/-- If a step succeeds from a state, a condition holds of its result and of the state after it. -/
structure Yields {α : Type} (step : Step α) (state : State) (post : α → State → Prop) : Prop where
  holds : ∀ result later, step.after state = (.ok result, later) → post result later

namespace Yields

variable {α β : Type} {step : Step α} {state : State} {post : α → State → Prop}

theorem pure {result : α} (holds : post result state) :
    Yields (Pure.pure result) state post := by
  constructor
  intro other later equal
  cases equal
  exact holds

theorem throw (fault : Fault) : Yields (MonadExcept.throw fault) state post := by
  constructor
  intro result later equal
  cases equal

theorem ofExcept {outcome : Except Fault α} (holds : ∀ result, outcome = .ok result → post result state) :
    Yields (Step.ofExcept outcome) state post := by
  constructor
  intro result later equal
  cases equal
  exact holds result rfl

theorem write {edit : Ir.Draft → α × Ir.Draft}
    (holds : post (edit state.draft).1 { state with draft := (edit state.draft).2 }) :
    Yields (Step.write edit) state post := by
  constructor
  intro result later equal
  cases equal
  exact holds

theorem modify {edit : Ir.Draft → Ir.Draft} {post : Unit → State → Prop}
    (holds : post () { state with draft := edit state.draft }) :
    Yields (Step.modify edit) state post :=
  write holds

/-- Two steps in a row. -/
theorem bind {middle : α → State → Prop} {next : α → Step β} {post : β → State → Prop}
    (first : Yields step state middle)
    (second : ∀ result later, middle result later → Yields (next result) later post) :
    Yields (step >>= next) state post := by
  constructor
  intro result last equal
  rw [Step.after_bind] at equal
  cases taken : step.after state with
  | mk outcome later =>
      rw [taken] at equal
      cases outcome with
      | error fault => cases equal
      | ok value => exact (second value later (first.holds value later taken)).holds result last equal

theorem ofExcept_bind {outcome : Except Fault α} {next : α → Step β} {post : β → State → Prop}
    (second : ∀ result, outcome = .ok result → Yields (next result) state post) :
    Yields (Step.ofExcept outcome >>= next) state post := by
  constructor
  intro result last equal
  rw [Step.after_bind] at equal
  cases outcome with
  | error fault => cases equal
  | ok value => exact (second value rfl).holds result last equal

theorem inspect_bind {look : State → α} {next : α → Step β} {post : β → State → Prop}
    (second : Yields (next (look state)) state post) :
    Yields (Step.inspect look >>= next) state post := by
  constructor
  intro result last equal
  rw [Step.after_bind] at equal
  exact second.holds result last equal

theorem write_bind {edit : Ir.Draft → α × Ir.Draft} {next : α → Step β} {post : β → State → Prop}
    (second : Yields (next (edit state.draft).1) { state with draft := (edit state.draft).2 } post) :
    Yields (Step.write edit >>= next) state post := by
  constructor
  intro result last equal
  rw [Step.after_bind] at equal
  exact second.holds result last equal

theorem modify_bind {edit : Ir.Draft → Ir.Draft} {next : Unit → Step β} {post : β → State → Prop}
    (second : Yields (next ()) { state with draft := edit state.draft } post) :
    Yields (Step.modify edit >>= next) state post :=
  write_bind second

theorem mono {weaker : α → State → Prop} (yields : Yields step state post)
    (weaken : ∀ result later, post result later → weaker result later) : Yields step state weaker :=
  ⟨fun result later equal => weaken result later (yields.holds result later equal)⟩

/-- What holds for two reasons. -/
theorem and {other : α → State → Prop} (first : Yields step state post)
    (second : Yields step state other) :
    Yields step state fun result later => post result later ∧ other result later :=
  ⟨fun result later equal => ⟨first.holds result later equal, second.holds result later equal⟩⟩

theorem of_after {result : α} {later : State} (after : step.after state = (.ok result, later))
    (holds : post result later) : Yields step state post := by
  constructor
  intro other last equal
  cases after.symm.trans equal
  exact holds

/-- A step in a block of its own. -/
theorem inBlock
    (yields : Yields step { state with scope := state.scope.enter } fun result later =>
      post result { later with scope := later.scope.leave }) :
    Yields (Step.inBlock step) state post := by
  constructor
  intro result last equal
  rw [Step.after_inBlock, Prod.mk.injEq] at equal
  obtain ⟨succeeds, rfl⟩ := equal
  exact yields.holds result _ (Prod.ext succeeds rfl)

/-- A step inside a loop. -/
theorem inLoop {targets : LoopFrame}
    (yields : Yields step { state with loops := state.loops.enter targets } fun result later =>
      post result { later with loops := later.loops.leave }) :
    Yields (Step.inLoop targets step) state post := by
  constructor
  intro result last equal
  rw [Step.after_inLoop, Prod.mk.injEq] at equal
  obtain ⟨succeeds, rfl⟩ := equal
  exact yields.holds result _ (Prod.ext succeeds rfl)

/-- A name has a meaning where a step goes on that asks for it. -/
theorem lookup_bind {name : String} {next : Binding → Step β} {post : β → State → Prop}
    (second : ∀ binding, state.scope.lookup name = some binding → Yields (next binding) state post) :
    Yields (Step.lookup name >>= next) state post := by
  rw [Step.lookup, bind_assoc]
  apply inspect_bind
  cases found : state.scope.lookup name with
  | none =>
      have stops : Yields (MonadExcept.throw (.undeclaredName name) : Step Binding) state
          fun _ _ => False := throw _
      exact bind stops fun _ _ impossible => impossible.elim
  | some binding => exact second binding found

theorem lookups (names : List String) :
    Yields (names.mapM Step.lookup) state fun bindings later =>
      state = later ∧ state.scope.Means names bindings := by
  induction names with
  | nil => exact pure ⟨rfl, .nil⟩
  | cons name rest ih =>
      rw [List.mapM_cons]
      apply lookup_bind
      intro binding found
      apply bind ih
      rintro bindings _ ⟨rfl, means⟩
      exact pure ⟨rfl, .cons found means⟩

theorem declare_bind {name : String} {type : Ir.ValueType} {next : Ir.LocalId → Step β}
    {post : β → State → Prop}
    (second : Yields (next state.draft.nextLocal) (state.declared name type) post) :
    Yields (Step.declare name type >>= next) state post := by
  constructor
  intro result last equal
  rw [Step.after_bind] at equal
  exact second.holds result last equal

theorem reserveSpills_bind {count : Nat} {next : Unit → Step β} {post : β → State → Prop}
    (second : Yields (next ()) (state.reserved count) post) :
    Yields (Step.reserveSpills count >>= next) state post := by
  constructor
  intro result last equal
  rw [Step.after_bind] at equal
  exact second.holds result last equal

theorem declareExternal_bind {external : Ir.External} {next : Unit → Step β}
    {post : β → State → Prop} (second : Yields (next ()) (state.imported external) post) :
    Yields (Step.declareExternal external >>= next) state post := by
  constructor
  intro result last equal
  rw [Step.after_bind] at equal
  exact second.holds result last equal

/-- A spill slot that a step asks for is one of those there are. -/
theorem spill_bind {index : Nat} {next : Ir.GlobalId → Step β} {post : β → State → Prop}
    (second : ∀ slot, state.spills.slots[index]? = some slot → Yields (next slot) state post) :
    Yields (Step.spill index >>= next) state post := by
  rw [Step.spill, bind_assoc]
  apply inspect_bind
  cases found : state.spills.slot? index with
  | none =>
      have stops : Yields (MonadExcept.throw (.arity (index + 1) state.spills.size) : Step Ir.GlobalId)
          state fun _ _ => False := throw _
      exact bind (inspect_bind stops) fun _ _ impossible => impossible.elim
  | some slot => exact second slot found

end Yields

end YulLowering.Lowering.Step

namespace YulLowering.Lowering

/-- What succeeds has a result. -/
theorem exists_of_isOk {ε α : Type} {outcome : Except ε α} (isOk : outcome.isOk = true) :
    ∃ result, outcome = .ok result := by
  cases outcome with
  | error fault => cases isOk
  | ok result => exact ⟨result, rfl⟩

end YulLowering.Lowering
