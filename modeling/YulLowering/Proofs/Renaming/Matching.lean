import YulLowering.Proofs.Outcomes
import YulLowering.Proofs.Programs
import YulLowering.Proofs.Renaming.Source

/-!
# Two lowerings side by side

Two programs that differ in the names of variables are lowered step by step. Their states differ in the names
of slots and of visible declarations only, and two names that mean the same are looked up to the same slot.
From such states two steps both fail, or both succeed and end in such states again.
-/

namespace YulLowering

namespace Ir

/-! ## Leaving names out -/

/-- A slot without the name of its variable. -/
def LocalSlot.anonymous (slot : LocalSlot) : LocalSlot :=
  { slot with name := "" }

/-- A function without the names of its variables. -/
def Function.anonymous (function : Function) : Function :=
  { function with locals := function.locals.map LocalSlot.anonymous }

/-- A module without the names of variables. -/
def Module.anonymous (module : Module) : Module :=
  { module with functions := module.functions.map Function.anonymous }

namespace Draft

/-- A draft without the names of its variables. -/
def anonymous (draft : Draft) : Draft :=
  { draft with function := draft.function.anonymous }

/-- An edit that does not depend on the names of variables. -/
def Natural {α : Type} (edit : Draft → α × Draft) : Prop :=
  ∀ draft : Draft, edit draft.anonymous = ((edit draft).1, (edit draft).2.anonymous)

@[simp] theorem isClosed_anonymous (draft : Draft) : draft.anonymous.isClosed = draft.isClosed := rfl

@[simp] theorem nextLocal_anonymous (draft : Draft) :
    draft.anonymous.nextLocal = draft.nextLocal := by
  simp [nextLocal, anonymous, Function.anonymous]

/-- The name of a slot is all that a reservation adds of the name of a variable. -/
theorem anonymous_reserve (draft : Draft) (name : String) (type : ValueType) :
    (draft.reserve name type).2.anonymous = (draft.anonymous.reserve "" type).2 := by
  simp [reserve, anonymous, Function.anonymous, Function.pushLocal, Function.modifyBlock,
    LocalSlot.anonymous]

theorem natural_call (callee : Callee) (arguments : List Value) (resultType : ValueType) :
    Natural fun draft => draft.call callee arguments resultType := by
  intro draft
  unfold call
  cases resultType.isVoid <;> rfl

theorem natural_toCondition (operand : Value) : Natural fun draft => draft.toCondition operand := by
  intro draft
  unfold toCondition
  cases operand.type.isBool <;> rfl

theorem anonymous_fallThrough (draft : Draft) (target : BlockId) :
    draft.anonymous.fallThrough target = (draft.fallThrough target).anonymous := by
  unfold fallThrough
  rw [isClosed_anonymous]
  cases draft.isClosed <;> rfl

end Draft

theorem Module.anonymous_declare (module : Module) (external : External) :
    (module.anonymous.declare external).2 = (module.declare external).2.anonymous := by
  unfold declare
  rw [show module.anonymous.external? external.name = module.external? external.name from rfl]
  cases module.external? external.name <;> rfl

theorem Module.anonymous_pushFunction (module : Module) (function : Function) :
    (module.pushFunction function).2.anonymous =
      (module.anonymous.pushFunction function.anonymous).2 := by
  simp [pushFunction, anonymous]

end Ir

namespace Lowering

/-- A visible declaration without its name. -/
def Binding.anonymous (binding : Binding) : Binding :=
  { binding with name := "" }

/-- Two declarations of the same variable. -/
def Binding.Same (binding other : Binding) : Prop :=
  binding.anonymous = other.anonymous

theorem Binding.Same.slot {binding other : Binding} (same : binding.Same other) :
    binding.slot = other.slot := by
  have erased : binding.anonymous.slot = other.anonymous.slot := congrArg Binding.slot same
  exact erased

theorem Binding.Same.type {binding other : Binding} (same : binding.Same other) :
    binding.type = other.type := by
  have erased : binding.anonymous.type = other.anonymous.type := congrArg Binding.type same
  exact erased

theorem SpillSlots.reserve_anonymous (pool : SpillSlots) (module : Ir.Module) (count : Nat) :
    pool.reserve module.anonymous count =
      ((pool.reserve module count).1, (pool.reserve module count).2.anonymous) := by
  rw [reserve, reserve, extendBy_eq, extendBy_eq]
  rfl

/-! ## States side by side -/

/-- Two states that differ in the names of variables. Names that mean the same are looked up to the same
slot. -/
structure State.Renamed (visible : Renaming) (state other : State) : Prop where
  draft : state.draft.anonymous = other.draft.anonymous
  loops : state.loops = other.loops
  spills : state.spills = other.spills
  module : state.module.anonymous = other.module.anonymous
  scope : ∀ name second, visible.Means name second →
    (state.scope.lookup name).map Binding.anonymous =
      (other.scope.lookup second).map Binding.anonymous

/-- Two steps have come from two states to two others, and only declarations have been added to the scopes. -/
structure State.Reached (visible : Renaming) (state other later otherLater : State) : Prop where
  renamed : State.Renamed visible later otherLater
  extends_ : state.scope.Extends later.scope
  otherExtends : other.scope.Extends otherLater.scope

variable {visible middle later : Renaming} {state other : State}

/-- Where neither name is visible, the two may be taken for names of one variable. -/
theorem State.Renamed.hidden (renamed : State.Renamed visible state other) {name second : String}
    (absent : state.scope.lookup name = none) (otherAbsent : other.scope.lookup second = none) :
    State.Renamed ((name, second) :: visible) state other where
  draft := renamed.draft
  loops := renamed.loops
  spills := renamed.spills
  module := renamed.module
  scope := by
    intro _ _ means
    cases means with
    | here => rw [absent, otherAbsent]
    | there _ _ means => exact renamed.scope _ _ means

/-- A change that keeps the two scopes as they are. -/
theorem State.Renamed.reached (renamed : State.Renamed visible state other) {last otherLast : State}
    (draft : last.draft.anonymous = otherLast.draft.anonymous) (loops : last.loops = otherLast.loops)
    (spills : last.spills = otherLast.spills)
    (module : last.module.anonymous = otherLast.module.anonymous) (scope : last.scope = state.scope)
    (otherScope : otherLast.scope = other.scope) :
    State.Reached visible state other last otherLast where
  renamed := ⟨draft, loops, spills, module, by rw [scope, otherScope]; exact renamed.scope⟩
  extends_ := scope ▸ .refl _
  otherExtends := otherScope ▸ .refl _

/-! ## Steps side by side -/

/-- Two outcomes with the states after them: two faults, or two results such that a condition holds of these
and of the states. -/
inductive Together {α β : Type} (post : α → β → State → State → Prop) :
    Except Fault α × State → Except Fault β × State → Prop where
  | ok {result : α} {second : β} {state other : State} (holds : post result second state other) :
      Together post (.ok result, state) (.ok second, other)
  | error (fault otherFault : Fault) (state other : State) :
      Together post (.error fault, state) (.error otherFault, other)

theorem Together.mono {α β : Type} {post weaker : α → β → State → State → Prop}
    {outcome : Except Fault α × State} {second : Except Fault β × State}
    (together : Together post outcome second)
    (weaken : ∀ result other state otherState, post result other state otherState →
      weaker result other state otherState) : Together weaker outcome second := by
  cases together with
  | ok holds => exact .ok (weaken _ _ _ _ holds)
  | error => exact .error _ _ _ _

/-- Two steps in a row on both sides. -/
theorem Together.bind {α β γ δ : Type} {post : α → β → State → State → Prop}
    {last : γ → δ → State → State → Prop} {step : Step α} {second : Step β} {next : α → Step γ}
    {otherNext : β → Step δ} {state other : State}
    (taken : Together post (step.after state) (second.after other))
    (rest : ∀ result otherResult later otherLater, post result otherResult later otherLater →
      Together last ((next result).after later) ((otherNext otherResult).after otherLater)) :
    Together last ((step >>= next).after state) ((second >>= otherNext).after other) := by
  rw [Step.after_bind, Step.after_bind]
  generalize step.after state = outcome at taken
  generalize second.after other = otherOutcome at taken
  cases taken with
  | error => exact .error _ _ _ _
  | ok holds => exact rest _ _ _ _ holds

/-- What is known of each of the two steps by itself holds as well where both succeed. -/
theorem Together.and {α β : Type} {post : α → β → State → State → Prop} {step : Step α}
    {second : Step β} {state other : State} {known : α → State → Prop} {otherKnown : β → State → Prop}
    (taken : Together post (step.after state) (second.after other))
    (yields : step.Yields state known) (otherYields : second.Yields other otherKnown) :
    Together (fun result otherResult later otherLater => post result otherResult later otherLater ∧
        known result later ∧ otherKnown otherResult otherLater)
      (step.after state) (second.after other) := by
  generalize isOutcome : step.after state = outcome at taken
  generalize isOther : second.after other = otherOutcome at taken
  cases taken with
  | error => exact .error _ _ _ _
  | ok holds =>
      exact .ok ⟨holds, yields.holds _ _ isOutcome, otherYields.holds _ _ isOther⟩

/-- Two steps that do the same under different names of variables. `visible` has the variables in front of the
steps, `later` those behind them. -/
def Step.Renamed {α β : Type} (visible later : Renaming) (related : α → β → Prop) (step : Step α)
    (second : Step β) : Prop :=
  ∀ ⦃state other : State⦄, State.Renamed visible state other →
    Together (fun result otherResult last otherLast => related result otherResult ∧
      State.Reached later state other last otherLast) (step.after state) (second.after other)

namespace Step.Renamed

variable {α β γ δ : Type} {related : α → β → Prop} {step : Step α} {second : Step β}

theorem pure {result : α} {otherResult : β} (holds : related result otherResult) :
    Step.Renamed visible visible related (Pure.pure result) (Pure.pure otherResult) :=
  fun _ _ renamed => .ok ⟨holds,
    renamed.reached renamed.draft renamed.loops renamed.spills renamed.module rfl rfl⟩

theorem throw (visible later : Renaming) (related : α → β → Prop) (fault otherFault : Fault) :
    Step.Renamed visible later related (MonadExcept.throw fault) (MonadExcept.throw otherFault) :=
  fun _ _ _ => .error _ _ _ _

/-- Two steps in a row. -/
theorem bind {followed : γ → δ → Prop} {next : α → Step γ} {otherNext : β → Step δ}
    (first : Step.Renamed visible middle related step second)
    (rest : ∀ result otherResult, related result otherResult →
      Step.Renamed middle later followed (next result) (otherNext otherResult)) :
    Step.Renamed visible later followed (step >>= next) (second >>= otherNext) := by
  intro state other renamed
  apply (first renamed).bind
  rintro result otherResult _ _ ⟨isRelated, reached⟩
  apply (rest _ _ isRelated reached.renamed).mono
  rintro _ _ _ _ ⟨holds, more⟩
  exact ⟨holds, more.renamed, reached.extends_.trans more.extends_,
    reached.otherExtends.trans more.otherExtends⟩

theorem mono {weaker : α → β → Prop} (renamed : Step.Renamed visible later related step second)
    (weaken : ∀ result otherResult, related result otherResult → weaker result otherResult) :
    Step.Renamed visible later weaker step second :=
  fun _ _ states => (renamed states).mono fun _ _ _ _ holds => ⟨weaken _ _ holds.1, holds.2⟩

theorem ofExcept (visible : Renaming) (outcome : Except Fault α) :
    Step.Renamed visible visible Eq (Step.ofExcept outcome) (Step.ofExcept outcome) := by
  intro state other renamed
  rw [Step.after_ofExcept, Step.after_ofExcept]
  cases outcome with
  | error fault => exact .error _ _ _ _
  | ok result =>
      exact .ok ⟨rfl,
        renamed.reached renamed.draft renamed.loops renamed.spills renamed.module rfl rfl⟩

theorem ofExcept_bind {followed : γ → δ → Prop} {outcome : Except Fault α} {next : α → Step γ}
    {otherNext : α → Step δ}
    (rest : ∀ result, Step.Renamed visible later followed (next result) (otherNext result)) :
    Step.Renamed visible later followed (Step.ofExcept outcome >>= next)
      (Step.ofExcept outcome >>= otherNext) := by
  apply (ofExcept visible outcome).bind
  rintro result _ rfl
  exact rest result

/-- What is looked up in the state does not depend on the names of variables. -/
theorem inspect {look : State → α}
    (same : ∀ {state other}, State.Renamed visible state other → look state = look other) :
    Step.Renamed visible visible Eq (Step.inspect look) (Step.inspect look) :=
  fun _ _ renamed => .ok ⟨same renamed,
    renamed.reached renamed.draft renamed.loops renamed.spills renamed.module rfl rfl⟩

theorem isClosed (visible : Renaming) :
    Step.Renamed visible visible Eq (Step.inspect fun state => state.draft.isClosed)
      (Step.inspect fun state => state.draft.isClosed) := by
  apply inspect
  intro state other renamed
  rw [← Ir.Draft.isClosed_anonymous, renamed.draft, Ir.Draft.isClosed_anonymous]

/-- Both functions are edited in the same way. -/
theorem write {edit : Ir.Draft → α × Ir.Draft} (natural : Ir.Draft.Natural edit) :
    Step.Renamed visible visible Eq (Step.write edit) (Step.write edit) := by
  intro state other renamed
  have same : ((edit state.draft).1, (edit state.draft).2.anonymous) =
      ((edit other.draft).1, (edit other.draft).2.anonymous) := by
    rw [← natural, ← natural, renamed.draft]
  rw [Prod.mk.injEq] at same
  rw [Step.after_write, Step.after_write]
  exact .ok ⟨same.1,
    renamed.reached same.2 renamed.loops renamed.spills renamed.module rfl rfl⟩

theorem modify {edit : Ir.Draft → Ir.Draft}
    (natural : ∀ draft, edit draft.anonymous = (edit draft).anonymous) :
    Step.Renamed visible visible Eq (Step.modify edit) (Step.modify edit) :=
  write fun draft => by rw [natural]

theorem write_bind {followed : γ → δ → Prop} {edit : Ir.Draft → α × Ir.Draft} {next : α → Step γ}
    {otherNext : α → Step δ} (natural : Ir.Draft.Natural edit)
    (rest : ∀ result, Step.Renamed visible later followed (next result) (otherNext result)) :
    Step.Renamed visible later followed (Step.write edit >>= next) (Step.write edit >>= otherNext) := by
  apply (write natural).bind
  rintro result _ rfl
  exact rest result

theorem modify_bind {followed : γ → δ → Prop} {edit : Ir.Draft → Ir.Draft} {next : Unit → Step γ}
    {otherNext : Unit → Step δ} (natural : ∀ draft, edit draft.anonymous = (edit draft).anonymous)
    (rest : Step.Renamed visible later followed (next ()) (otherNext ())) :
    Step.Renamed visible later followed (Step.modify edit >>= next)
      (Step.modify edit >>= otherNext) :=
  (modify natural).bind fun _ _ _ => rest

/-- Names that mean the same are looked up alike. -/
theorem lookup {name otherName : String} (means : visible.Means name otherName) :
    Step.Renamed visible visible Binding.Same (Step.lookup name) (Step.lookup otherName) := by
  intro state other renamed
  have same := renamed.scope name otherName means
  rw [Step.lookup, Step.lookup, Step.after_bind, Step.after_bind, Step.after_inspect,
    Step.after_inspect]
  dsimp only
  cases found : state.scope.lookup name with
  | none =>
      rw [found, Option.map_none, eq_comm, Option.map_eq_none_iff] at same
      rw [same]
      exact .error _ _ _ _
  | some binding =>
      rw [found, Option.map_some, eq_comm, Option.map_eq_some_iff] at same
      obtain ⟨otherBinding, isOther, same⟩ := same
      rw [isOther]
      exact .ok ⟨same.symm,
        renamed.reached renamed.draft renamed.loops renamed.spills renamed.module rfl rfl⟩

theorem lookups {names others : List String} (means : List.Forall₂ visible.Means names others) :
    Step.Renamed visible visible (List.Forall₂ Binding.Same) (names.mapM Step.lookup)
      (others.mapM Step.lookup) := by
  induction means with
  | nil => exact .pure .nil
  | cons first _ ih =>
      rw [List.mapM_cons, List.mapM_cons]
      apply (lookup first).bind
      intro binding otherBinding same
      apply ih.bind
      intro bindings otherBindings all
      exact .pure (.cons same all)

/-- A variable is declared under two names. -/
theorem declare (name otherName : String) (type : Ir.ValueType) :
    Step.Renamed visible ((name, otherName) :: visible) Eq (Step.declare name type)
      (Step.declare otherName type) := by
  intro state other renamed
  have slot : state.draft.nextLocal = other.draft.nextLocal := by
    rw [← Ir.Draft.nextLocal_anonymous, renamed.draft, Ir.Draft.nextLocal_anonymous]
  rw [Step.after_declare, Step.after_declare]
  refine .ok ⟨slot, ⟨?_, renamed.loops, renamed.spills, renamed.module, ?_⟩, .bind _ _, .bind _ _⟩
  · show (state.draft.reserve name type).2.anonymous = (other.draft.reserve otherName type).2.anonymous
    rw [Ir.Draft.anonymous_reserve, Ir.Draft.anonymous_reserve, renamed.draft]
  · intro first second means
    show (Scope.lookup (state.scope.bind _) first).map _ = (Scope.lookup (other.scope.bind _) second).map _
    rw [Scope.lookup_bind, Scope.lookup_bind]
    cases means with
    | here => simp [Binding.anonymous, slot]
    | there differs otherDiffers means =>
        rw [if_neg (by simpa using Ne.symm differs), if_neg (by simpa using Ne.symm otherDiffers)]
        exact renamed.scope first second means

theorem reserveSpills (visible : Renaming) (count : Nat) :
    Step.Renamed visible visible Eq (Step.reserveSpills count) (Step.reserveSpills count) := by
  intro state other renamed
  have same : ((state.spills.reserve state.module count).1,
        (state.spills.reserve state.module count).2.anonymous) =
      ((other.spills.reserve other.module count).1,
        (other.spills.reserve other.module count).2.anonymous) := by
    rw [← SpillSlots.reserve_anonymous, ← SpillSlots.reserve_anonymous, renamed.module, renamed.spills]
  rw [Prod.mk.injEq] at same
  exact .ok ⟨rfl, renamed.reached renamed.draft renamed.loops same.1 same.2 rfl rfl⟩

theorem spill (visible : Renaming) (index : Nat) :
    Step.Renamed visible visible Eq (Step.spill index) (Step.spill index) := by
  apply bind (inspect fun renamed => by rw [renamed.spills])
  rintro found _ rfl
  cases found with
  | some slot => exact .pure rfl
  | none =>
      apply bind (inspect fun renamed => by rw [renamed.spills])
      rintro size _ rfl
      exact .throw _ _ _ _ _

theorem declareExternal (visible : Renaming) (external : Ir.External) :
    Step.Renamed visible visible Eq (Step.declareExternal external)
      (Step.declareExternal external) := by
  intro state other renamed
  have same : (state.module.declare external).2.anonymous =
      (other.module.declare external).2.anonymous := by
    rw [← Ir.Module.anonymous_declare, ← Ir.Module.anonymous_declare, renamed.module]
  exact .ok ⟨rfl, renamed.reached renamed.draft renamed.loops renamed.spills same rfl rfl⟩

/-- What has been declared in a block is hidden behind it. -/
theorem inBlock (inside : Step.Renamed visible later related step second) :
    Step.Renamed visible visible related (Step.inBlock step) (Step.inBlock second) := by
  intro state other renamed
  have entered : State.Renamed visible { state with scope := state.scope.enter }
      { other with scope := other.scope.enter } :=
    ⟨renamed.draft, renamed.loops, renamed.spills, renamed.module, renamed.scope⟩
  have taken := inside entered
  rw [Step.after_inBlock, Step.after_inBlock]
  generalize step.after { state with scope := state.scope.enter } = outcome at taken
  generalize second.after { other with scope := other.scope.enter } = otherOutcome at taken
  cases taken with
  | error => exact .error _ _ _ _
  | ok holds =>
      obtain ⟨isRelated, reached⟩ := holds
      exact .ok ⟨isRelated, renamed.reached reached.renamed.draft reached.renamed.loops
        reached.renamed.spills reached.renamed.module reached.extends_.leave_eq
        reached.otherExtends.leave_eq⟩

theorem inLoop (targets : LoopFrame) (inside : Step.Renamed visible later related step second) :
    Step.Renamed visible later related (Step.inLoop targets step) (Step.inLoop targets second) := by
  intro state other renamed
  have entered : State.Renamed visible { state with loops := state.loops.enter targets }
      { other with loops := other.loops.enter targets } :=
    ⟨renamed.draft, by rw [renamed.loops], renamed.spills, renamed.module, renamed.scope⟩
  have taken := inside entered
  rw [Step.after_inLoop, Step.after_inLoop]
  generalize step.after { state with loops := state.loops.enter targets } = outcome at taken
  generalize second.after { other with loops := other.loops.enter targets } = otherOutcome at taken
  cases taken with
  | error => exact .error _ _ _ _
  | ok holds =>
      obtain ⟨isRelated, reached⟩ := holds
      refine .ok ⟨isRelated, ⟨reached.renamed.draft, ?_, reached.renamed.spills,
        reached.renamed.module, reached.renamed.scope⟩, reached.extends_, reached.otherExtends⟩
      show Loops.leave _ = Loops.leave _
      rw [reached.renamed.loops]

end Step.Renamed

end Lowering

end YulLowering
