import YulLowering.Proofs.Initialisation.Paths
import YulLowering.Proofs.Meaning.Source
import YulLowering.Proofs.Outcomes

/-!
# Expressions read what has been written

An expression reads the variables that it mentions and nothing else, and it writes none. Assignments
write all of their targets, once the values have been computed.
-/

namespace YulLowering.Lowering

variable {context : Context} {known more : List (List Ir.LocalId)} {state later : State}

/-! ## Expressions -/

/-- The slots of the visible variables. -/
def Scope.slots (scope : Scope) : List Ir.LocalId :=
  scope.bindings.map Binding.slot

/-- What holds between two moments in the course of a statement: the visible variables are the same,
and what had been written at the cursor still has been. -/
structure Continues (known : List (List Ir.LocalId)) (state : State)
    (more : List (List Ir.LocalId)) (later : State) : Prop where
  grow : known <+: more
  secures : later.draft.function.Secures more
  present : (more[later.draft.cursor.index]?).isSome
  scope : later.scope = state.scope
  loops : later.loops = state.loops
  isClosed : later.draft.isClosed = state.draft.isClosed
  keeps : ∀ slot, state.draft.HasWritten known slot → later.draft.HasWritten more slot

namespace Continues

theorem refl (secures : state.draft.function.Secures known)
    (present : (known[state.draft.cursor.index]?).isSome) : Continues known state known state :=
  ⟨List.prefix_refl _, secures, present, rfl, rfl, rfl, fun _ => id⟩

theorem here (continues : Continues known state more later) : Continues more later more later :=
  .refl continues.secures continues.present

theorem trans {middle : State} {between : List (List Ir.LocalId)}
    (first : Continues known state between middle) (second : Continues between middle more later) :
    Continues known state more later where
  grow := first.grow.trans second.grow
  secures := second.secures
  present := second.present
  scope := second.scope.trans first.scope
  loops := second.loops.trans first.loops
  isClosed := second.isClosed.trans first.isClosed
  keeps := fun slot hasWritten => second.keeps slot (first.keeps slot hasWritten)

theorem slots (continues : Continues known state more later) :
    later.scope.slots ⊆ state.scope.slots := by
  rw [continues.scope]
  exact List.Subset.refl _

theorem write (continues : Continues known state more later) (instruction : Ir.Instruction)
    (reads : ∀ slot, instruction.loaded? = some slot → later.draft.HasWritten more slot) :
    Continues known state more { later with draft := later.draft.write instruction } where
  grow := continues.grow
  secures := Ir.Draft.secures_write continues.secures instruction reads
  present := continues.present
  scope := continues.scope
  loops := continues.loops
  isClosed := (Ir.Draft.isClosed_write _ _).trans continues.isClosed
  keeps := fun slot hasWritten => (continues.keeps slot hasWritten).write instruction

/-- What the functions of a program share has nothing to do with the writes of one of them. -/
theorem share (continues : Continues known state more later) (spills : SpillSlots)
    (module : Ir.Module) :
    Continues known state more { later with spills := spills, module := module } :=
  ⟨continues.grow, continues.secures, continues.present, continues.scope, continues.loops,
    continues.isClosed, continues.keeps⟩

end Continues

/-- All variables of some names have been written. -/
def State.Written (known : List (List Ir.LocalId)) (state : State) (names : String → Bool) : Prop :=
  ∀ name binding, names name = true → state.scope.lookup name = some binding →
    state.draft.HasWritten known binding.slot

theorem State.Written.mono {names fewer : String → Bool} (written : state.Written known names)
    (within : ∀ name, fewer name = true → names name = true) : state.Written known fewer :=
  fun name binding isName => written name binding (within name isName)

theorem State.Written.after {names : String → Bool} (written : state.Written known names)
    (continues : Continues known state more later) : later.Written more names := by
  intro name binding isName found
  rw [continues.scope] at found
  exact continues.keeps _ (written name binding isName found)

theorem continues_literal (continues : Continues known state more later) (literal : Literal) :
    (literal.lower context).Yields later fun _ last => Continues known state more last := by
  apply Step.Yields.ofExcept_bind
  intro type _
  apply Step.Yields.ofExcept_bind
  intro constant _
  apply Step.Yields.write
  rw [Ir.Draft.const_eq]
  exact continues.write _ fun slot loads => by cases loads

theorem continues_lowerLiterals (continues : Continues known state more later) (builtin : String)
    (index : Nat) (arguments : List Expression) :
    (Expression.lowerLiterals context builtin index arguments).Yields later fun _ last =>
      Continues known state more last := by
  induction arguments generalizing later index with
  | nil => exact .pure continues
  | cons argument rest ih =>
      cases argument with
      | literal written =>
          apply Step.Yields.bind (continues_literal continues written)
          intro value middle first
          apply Step.Yields.bind (ih first (index + 1))
          intro values last others
          exact .pure others
      | identifier | call | instructionCall | instruction => exact .throw _

theorem continues_call (continues : Continues known state more later) (callee : Ir.Callee)
    (arguments : List Ir.Value) (resultType : Ir.ValueType) :
    (Step.write fun draft => draft.call callee arguments resultType).Yields later fun _ last =>
      Continues known state more last := by
  apply Step.Yields.write
  rw [Ir.Draft.call_eq]
  exact continues.write _ fun slot loads => by cases loads

theorem continues_invokeWith {target : Target} {arguments : List Expression}
    {evaluate : Step (List Ir.Value)} (continues : Continues known state more later)
    (evaluates : evaluate.Yields later fun _ last => Continues known state more last) :
    (target.invokeWith context arguments evaluate).Yields later fun _ last =>
      Continues known state more last := by
  cases target with
  | function signature =>
      apply Step.Yields.bind evaluates
      intro values middle evaluated
      apply Step.Yields.bind (continues_call evaluated _ _ _)
      intro first last called
      exact .pure called
  | builtin builtin =>
      apply Step.Yields.ofExcept_bind
      intro external _
      have writes {values : List Ir.Value} {middle : State}
          (evaluated : Continues known state more middle) :
          (writeExternal external values).Yields middle fun _ last =>
            Continues known state more last := by
        apply Step.Yields.declareExternal_bind
        apply Step.Yields.bind (continues_call (evaluated.share _ _) _ _ _)
        intro first last called
        exact .pure called
      dsimp only
      split
      · exact .bind (continues_lowerLiterals continues builtin.name 0 arguments)
          fun values middle evaluated => writes evaluated
      · exact .bind evaluates fun values middle evaluated => writes evaluated

mutual

/-- An expression whose variables have been written reads nothing else. -/
theorem continues_lower : (expression : Expression) → ∀ {state},
    Continues known state known state → state.Written known (expression.mentions ·) →
    (expression.lower context).Yields state fun _ later => Continues known state known later
  | .identifier name, state, here, written => by
      rw [Expression.lower]
      apply Step.Yields.lookup_bind
      intro binding found
      apply Step.Yields.write
      rw [Ir.Draft.load_eq]
      refine here.write _ fun slot loads => ?_
      cases loads
      exact written name binding (by simp [Expression.mentions]) found
  | .literal literal, state, here, written => by
      rw [Expression.lower]
      exact continues_literal here literal
  | .call callee arguments, state, here, written => by
      rw [Expression.lower]
      apply Step.Yields.ofExcept_bind
      intro target _
      have mentioned : state.Written known (Expression.mentionsAny · arguments) :=
        written.mono fun name isName => by rwa [Expression.mentions]
      apply Step.Yields.bind
        (continues_invokeWith here (continues_lowerEach arguments here mentioned))
      intro outcome last called
      exact .ofExcept fun _ _ => called
  | .instructionCall mnemonic _, state, here, written => by
      rw [Expression.lower]
      exact .throw _
  | .instruction mnemonic, state, here, written => by
      rw [Expression.lower]
      exact .throw _

theorem continues_lowerEach : (arguments : List Expression) → ∀ {state},
    Continues known state known state → state.Written known (Expression.mentionsAny · arguments) →
    (Expression.lowerEach context arguments).Yields state fun _ later =>
      Continues known state known later
  | [], state, here, written => by
      rw [Expression.lowerEach]
      exact .pure here
  | argument :: rest, state, here, written => by
      rw [Expression.lowerEach]
      have head : state.Written known (argument.mentions ·) :=
        written.mono fun name isName => by simp [Expression.mentionsAny, isName]
      have tail : state.Written known (Expression.mentionsAny · rest) :=
        written.mono fun name isName => by simp [Expression.mentionsAny, isName]
      apply Step.Yields.bind (continues_lower argument here head)
      intro value middle first
      apply Step.Yields.bind (continues_lowerEach rest first.here (tail.after first))
      intro values last others
      exact .pure (first.trans others)

end

/-! ## Assignments -/

theorem Continues.store (continues : Continues known state more later) (slot : Ir.LocalId)
    (value : Ir.Value) :
    Continues known state more
        { later with draft := later.draft.write (.store (.ofLocal slot) value) } ∧
      (later.draft.write (.store (.ofLocal slot) value)).HasWritten more slot :=
  ⟨continues.write _ (fun _ loads => by cases loads),
    Ir.Draft.hasWritten_store continues.secures continues.present slot value⟩

/-- Whatever comes out of spill slots is written to the targets. -/
theorem continues_unspill (index : Nat) (targets : List Binding)
    (here : Continues known state known state) :
    (unspill index targets).Yields state fun _ later =>
      Continues known state known later ∧
        ∀ target ∈ targets, later.draft.HasWritten known target.slot := by
  induction targets generalizing index state with
  | nil => exact .pure ⟨here, fun target member => by cases member⟩
  | cons target rest ih =>
      apply Step.Yields.spill_bind
      intro slot _
      apply Step.Yields.write_bind
      rw [Ir.Draft.load_eq]
      have loaded := here.write (.load (state.draft.next target.type) (.ofGlobal slot))
        fun _ loads => by cases loads
      apply Step.Yields.modify_bind
      rw [Ir.Draft.store_eq]
      obtain ⟨stored, isWritten⟩ := loaded.store target.slot (state.draft.next target.type)
      apply (ih (index + 1) stored.here).mono
      rintro _ later ⟨continues, others⟩
      exact ⟨stored.trans continues, List.forall_mem_cons.mpr ⟨continues.keeps _ isWritten, others⟩⟩

theorem continues_assign (targets : List Binding) (value : Expression)
    (here : Continues known state known state) (written : state.Written known (value.mentions ·)) :
    (assign context targets value).Yields state fun _ later =>
      Continues known state known later ∧
        ∀ target ∈ targets, later.draft.HasWritten known target.slot := by
  unfold assign
  split
  · exact .throw _
  · next target =>
    apply Step.Yields.bind (continues_lower value here written)
    intro result middle evaluated
    apply Step.Yields.modify
    rw [Ir.Draft.store_eq]
    obtain ⟨stored, isWritten⟩ := evaluated.store target.slot result
    exact ⟨stored, List.forall_mem_singleton.mpr isWritten⟩
  · next first others callee arguments _ =>
    rw [assignResults]
    apply Step.Yields.ofExcept_bind
    intro target _
    dsimp only
    split
    · exact .throw _
    · apply Step.Yields.reserveSpills_bind
      have continues : Continues known state known (state.reserved (others.length + 1 - 1)) :=
        here.share _ _
      have mentioned : (state.reserved (others.length + 1 - 1)).Written known (Expression.mentionsAny · arguments) :=
        (written.after continues).mono fun name isName => by rwa [Expression.mentions]
      apply Step.Yields.bind (continues_invokeWith continues.here
        (continues_lowerEach arguments continues.here mentioned))
      intro outcome called afterCall
      split
      · exact .throw _
      · next result _ =>
        apply Step.Yields.modify_bind
        rw [Ir.Draft.store_eq]
        obtain ⟨stored, isWritten⟩ := (continues.trans afterCall).store first.slot result
        apply (continues_unspill 0 others stored.here).mono
        rintro _ later ⟨taken, areWritten⟩
        exact ⟨stored.trans taken,
          List.forall_mem_cons.mpr ⟨taken.keeps _ isWritten, areWritten⟩⟩
  · exact .throw _

end YulLowering.Lowering
