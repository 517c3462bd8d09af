import YulLowering.Proofs.Outcomes

/-!
# Steps that report the first of what is wrong

A step of a lowering succeeds if nothing is wrong, and otherwise fails with the first of what is wrong. The
rules for steps in a row put what is wrong with the first step in front of what is wrong with the second.
-/

namespace YulLowering.Lowering

/-- The first of what is wrong, or a result if nothing is. -/
def firstOf {ε α : Type} (faults : List ε) (result : α) : Except ε α :=
  match faults with
  | [] => .ok result
  | fault :: _ => .error fault

theorem firstOf_bind {ε α β : Type} (faults more : List ε) {result : α} {next : α → Except ε β}
    {last : β} (isNext : next result = firstOf more last) :
    (firstOf faults result >>= next) = firstOf (faults ++ more) last := by
  cases faults with
  | nil => exact isNext
  | cons => rfl

theorem firstOf_bind_pure {ε α β : Type} (faults : List ε) (result : α) (wrap : α → β) :
    (firstOf faults result >>= fun result => pure (wrap result)) = firstOf faults (wrap result) := by
  cases faults <;> rfl

/-- An outcome is the first of some faults. If there are none it is a result, and a condition holds of it. -/
structure Verdict {ε α : Type} (outcome : Except ε α) (faults : List ε) (post : α → Prop) : Prop where
  fails : ∀ fault ∈ faults.head?, outcome = .error fault
  succeeds : faults = [] → ∃ result, outcome = .ok result ∧ post result

namespace Verdict

variable {ε α β : Type} {outcome : Except ε α} {faults more : List ε} {post : α → Prop}

theorem error (fault : ε) (faults : List ε) :
    Verdict (.error fault) (fault :: faults) post where
  fails := by
    intro first isFirst
    cases isFirst
    rfl
  succeeds := by simp

theorem of_eq {result : α} (isFirst : outcome = firstOf faults result) (holds : post result) :
    Verdict outcome faults post := by
  subst isFirst
  cases faults with
  | nil => exact ⟨by simp, fun _ => ⟨result, rfl, holds⟩⟩
  | cons fault faults => exact .error fault faults

/-- Two outcomes in a row. -/
theorem bind {next : α → Except ε β} {last : β → Prop} (first : Verdict outcome faults post)
    (second : ∀ result, post result → Verdict (next result) more last) :
    Verdict (outcome >>= next) (faults ++ more) last := by
  cases faults with
  | nil =>
      obtain ⟨result, rfl, holds⟩ := first.succeeds rfl
      exact second result holds
  | cons fault faults =>
      obtain rfl := first.fails fault rfl
      exact .error fault _

/-- What is known of a result may be where it comes from. -/
theorem recorded (verdict : Verdict outcome faults post) :
    Verdict outcome faults fun result => outcome = .ok result where
  fails := verdict.fails
  succeeds := by
    intro none
    obtain ⟨result, same, -⟩ := verdict.succeeds none
    exact ⟨result, same, same⟩

/-- There is a result if nothing is wrong, and else the first of what is. -/
theorem iff (verdict : Verdict outcome faults post) :
    ((∃ result, outcome = .ok result) ↔ faults = []) ∧
      ∀ fault, outcome = .error fault ↔ faults.head? = some fault := by
  cases faults with
  | nil =>
      obtain ⟨result, rfl, -⟩ := verdict.succeeds rfl
      simp
  | cons fault faults =>
      obtain rfl := verdict.fails fault rfl
      simp

theorem bind_pure (verdict : Verdict outcome faults post) (wrap : α → β) :
    Verdict (outcome >>= fun result => pure (wrap result)) faults fun _ => True := by
  cases faults with
  | nil =>
      obtain ⟨result, rfl, -⟩ := verdict.succeeds rfl
      exact .of_eq (firstOf_bind_pure [] result wrap) trivial
  | cons fault faults =>
      obtain rfl := verdict.fails fault rfl
      exact .error _ _

/-- A fault may be reported together with where it has been found. -/
theorem mapError {δ : Type} (verdict : Verdict outcome faults post) (locate : ε → δ) :
    Verdict (outcome.mapError locate) (faults.map locate) post := by
  cases faults with
  | nil =>
      obtain ⟨result, rfl, holds⟩ := verdict.succeeds rfl
      exact .of_eq rfl holds
  | cons fault faults =>
      obtain rfl := verdict.fails fault rfl
      exact .error _ _

end Verdict

namespace Step

/-- From a state, a step fails with the first of some faults. If there are none it succeeds, and a condition
holds of its result and of the state after it. -/
structure Reports {α : Type} (step : Step α) (state : State) (faults : List Fault)
    (post : α → State → Prop) : Prop where
  fails : ∀ fault ∈ faults.head?, (step.after state).1 = .error fault
  succeeds : faults = [] → ∃ result later, step.after state = (.ok result, later) ∧ post result later

namespace Reports

variable {α β : Type} {step : Step α} {state : State} {faults more : List Fault}
  {post : α → State → Prop}

theorem pure {result : α} (holds : post result state) :
    Reports (Pure.pure result) state [] post where
  fails := by simp
  succeeds := fun _ => ⟨result, state, rfl, holds⟩

theorem throw (fault : Fault) (faults : List Fault) :
    Reports (MonadExcept.throw fault) state (fault :: faults) post where
  fails := by
    intro first isFirst
    cases isFirst
    rfl
  succeeds := by simp

/-- A step whose outcome is known. -/
theorem of_after {result : α} {later : State} (after : step.after state = (.ok result, later))
    (holds : post result later) : Reports step state [] post where
  fails := by simp
  succeeds := fun _ => ⟨result, later, after, holds⟩

/-- An outcome that is the first of some faults. -/
theorem ofExcept {outcome : Except Fault α} {result : α} (isFirst : outcome = firstOf faults result)
    (holds : faults = [] → post result state) :
    Reports (Step.ofExcept outcome) state faults post := by
  subst isFirst
  cases faults with
  | nil => exact .of_after rfl (holds rfl)
  | cons fault faults => exact .throw fault faults

/-- Two steps in a row. -/
theorem bind {middle : α → State → Prop} {next : α → Step β} {post : β → State → Prop}
    (first : Reports step state faults middle)
    (second : ∀ result later, middle result later → Reports (next result) later more post) :
    Reports (step >>= next) state (faults ++ more) post := by
  cases faults with
  | nil =>
      obtain ⟨result, later, after, holds⟩ := first.succeeds rfl
      have rest := second result later holds
      constructor
      · rw [Step.after_bind, after]
        exact rest.fails
      · rw [Step.after_bind, after]
        exact rest.succeeds
  | cons fault faults =>
      have fails := first.fails fault rfl
      constructor
      · intro other isFirst
        cases isFirst
        rw [Step.after_bind]
        cases taken : step.after state with
        | mk outcome later =>
            rw [taken] at fails
            cases fails
            rfl
      · simp

/-- Two steps in a row, the first of which is known to succeed. -/
theorem of_after_bind {result : α} {later : State} {next : α → Step β} {post : β → State → Prop}
    (after : step.after state = (.ok result, later))
    (second : Reports (next result) later faults post) :
    Reports (step >>= next) state faults post := by
  constructor <;> rw [Step.after_bind, after]
  · exact second.fails
  · exact second.succeeds

theorem ofExcept_bind {outcome : Except Fault α} {result : α} {next : α → Step β}
    {post : β → State → Prop} (isFirst : outcome = firstOf faults result)
    (second : outcome = .ok result → Reports (next result) state more post) :
    Reports (Step.ofExcept outcome >>= next) state (faults ++ more) post := by
  subst isFirst
  cases faults with
  | nil => exact .of_after_bind rfl (second rfl)
  | cons fault faults =>
      constructor
      · intro first isFirst
        cases isFirst
        rw [Step.after_bind]
        rfl
      · simp

/-- What follows from the result and the state may be said instead. -/
theorem mono {weaker : α → State → Prop} (reports : Reports step state faults post)
    (weaken : ∀ result later, post result later → weaker result later) :
    Reports step state faults weaker where
  fails := reports.fails
  succeeds := by
    intro none
    obtain ⟨result, later, after, holds⟩ := reports.succeeds none
    exact ⟨result, later, after, weaken result later holds⟩

theorem verdict (reports : Reports step state faults post) :
    Verdict (step.after state).1 faults fun _ => True where
  fails := reports.fails
  succeeds := by
    intro none
    obtain ⟨result, later, after, -⟩ := reports.succeeds none
    rw [after]
    exact ⟨result, rfl, trivial⟩

theorem append_nil (reports : Reports step state faults post) :
    Reports step state (faults ++ []) post := by
  rwa [List.append_nil]

/-- A step that reports nothing yields what it promises. -/
theorem yields (reports : Reports step state faults post) : Yields step state post := by
  constructor
  intro result later after
  cases faults with
  | nil =>
      obtain ⟨other, last, same, holds⟩ := reports.succeeds rfl
      cases after.symm.trans same
      exact holds
  | cons fault faults =>
      have fails := reports.fails fault rfl
      rw [after] at fails
      cases fails

/-- Two steps in a row, with nothing to report about the second. -/
theorem bind_last {middle : α → State → Prop} {next : α → Step β} {post : β → State → Prop}
    (first : Reports step state faults middle)
    (second : ∀ result later, middle result later → Reports (next result) later [] post) :
    Reports (step >>= next) state faults post := by
  have both := first.bind second
  rwa [List.append_nil] at both

/-- Two steps in a row, with nothing to report about the first. -/
theorem silent_bind {middle : α → State → Prop} {next : α → Step β} {post : β → State → Prop}
    (first : Reports step state [] middle)
    (second : ∀ result later, middle result later → Reports (next result) later faults post) :
    Reports (step >>= next) state faults post := by
  obtain ⟨result, later, after, holds⟩ := first.succeeds rfl
  exact .of_after_bind after (second result later holds)

theorem inspect_bind {look : State → α} {next : α → Step β} {post : β → State → Prop}
    (second : Reports (next (look state)) state faults post) :
    Reports (Step.inspect look >>= next) state faults post :=
  .of_after_bind rfl second

theorem write {edit : Ir.Draft → α × Ir.Draft}
    (holds : post (edit state.draft).1 { state with draft := (edit state.draft).2 }) :
    Reports (Step.write edit) state [] post :=
  .of_after rfl holds

theorem modify {edit : Ir.Draft → Ir.Draft} {post : Unit → State → Prop}
    (holds : post () { state with draft := edit state.draft }) :
    Reports (Step.modify edit) state [] post :=
  write holds

theorem write_bind {edit : Ir.Draft → α × Ir.Draft} {next : α → Step β} {post : β → State → Prop}
    (second : Reports (next (edit state.draft).1) { state with draft := (edit state.draft).2 } faults
      post) :
    Reports (Step.write edit >>= next) state faults post :=
  .of_after_bind rfl second

theorem modify_bind {edit : Ir.Draft → Ir.Draft} {next : Unit → Step β} {post : β → State → Prop}
    (second : Reports (next ()) { state with draft := edit state.draft } faults post) :
    Reports (Step.modify edit >>= next) state faults post :=
  write_bind second

/-- A step in a block of its own. -/
theorem inBlock
    (reports : Reports step { state with scope := state.scope.enter } faults fun result later =>
      post result { later with scope := later.scope.leave }) :
    Reports (Step.inBlock step) state faults post where
  fails := by
    intro fault isFirst
    rw [Step.after_inBlock]
    exact reports.fails fault isFirst
  succeeds := by
    intro none
    obtain ⟨result, later, after, holds⟩ := reports.succeeds none
    rw [Step.after_inBlock, after]
    exact ⟨result, _, rfl, holds⟩

/-- A step inside a loop. -/
theorem inLoop {targets : LoopFrame}
    (reports : Reports step { state with loops := state.loops.enter targets } faults
      fun result later => post result { later with loops := later.loops.leave }) :
    Reports (Step.inLoop targets step) state faults post where
  fails := by
    intro fault isFirst
    rw [Step.after_inLoop]
    exact reports.fails fault isFirst
  succeeds := by
    intro none
    obtain ⟨result, later, after, holds⟩ := reports.succeeds none
    rw [Step.after_inLoop, after]
    exact ⟨result, _, rfl, holds⟩

theorem declare_bind {name : String} {type : Ir.ValueType} {next : Ir.LocalId → Step β}
    {post : β → State → Prop}
    (second : Reports (next state.draft.nextLocal) (state.declared name type) faults post) :
    Reports (Step.declare name type >>= next) state faults post :=
  .of_after_bind rfl second

theorem reserveSpills_bind {count : Nat} {next : Unit → Step β} {post : β → State → Prop}
    (second : Reports (next ()) (state.reserved count) faults post) :
    Reports (Step.reserveSpills count >>= next) state faults post :=
  .of_after_bind rfl second

theorem declareExternal_bind {external : Ir.External} {next : Unit → Step β}
    {post : β → State → Prop} (second : Reports (next ()) (state.imported external) faults post) :
    Reports (Step.declareExternal external >>= next) state faults post :=
  .of_after_bind rfl second

end Reports

end Step

end YulLowering.Lowering
