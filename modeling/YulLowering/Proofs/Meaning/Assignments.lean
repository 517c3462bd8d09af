import YulLowering.Proofs.Meaning.Expressions

/-!
# Declarations and assignments on the machine

What an expression gives is stored to the slots of variables: a single value directly, several ones
by way of the spill slots, which the callee has just filled. New slots are numbered above those of
all visible variables, so a declaration leaves these alone.
-/

namespace YulLowering.Lowering

open Ir (Frame Caller Config Machine)

variable {World : Type} {machine : Machine World} {lenient : Bool} {count : Nat}
  {context : Context} {arity : String → Option Nat} {calls : Calls World}
  {finished : Ir.Function} {before after : State} {frame : Frame} {env : Env}

/-! ## Conditions and expressions as statements -/

/-- The machine goes on in the same function, and the local slots are the same. -/
def Stays (finished : Ir.Function) (after : Ir.Draft) (frame : Frame) (callers : List Caller)
    (world : World) (config : Config World) : Prop :=
  ∃ later globals, config = .running later callers globals world ∧
    later.At finished after ∧ later.locals = frame.locals

theorem goes_invoke {callee : String} {target : Target} {arguments : List Expression}
    {outcome : CallOutcome} (resolved : context.resolveCall callee = .ok target)
    (isOpen : before.draft.IsOpen)
    (lowered : (target.invoke context arguments).after before = (.ok outcome, after)) :
    before.Goes after :=
  .of_runs (fun outcome => outcome.first.toList)
    (runs_invokeWith resolved isOpen (runs_lowerEach arguments isOpen)) lowered

theorem goes_lowerToCondition {expression : Expression} {condition : Ir.Value}
    (isOpen : before.draft.IsOpen)
    (lowered : (expression.lowerToCondition context).after before = (.ok condition, after)) :
    before.Goes after :=
  .of_runs (fun value => [value])
    ((runs_lowerToCondition expression isOpen).mono fun _ _ => And.left) lowered

/-- A condition holds on the machine if its expression is not zero in the source. -/
theorem simulates_lowerToCondition (answers : Answers machine lenient count context arity calls)
    {expression : Expression} (proper : expression.isProper arity = true) {condition : Ir.Value}
    (lowered : (expression.lowerToCondition context).after before = (.ok condition, after))
    (grows : after.draft.function.Grows finished) (callers : List Caller)
    (globals : Ir.GlobalId → Nat) (world : World) (stands : frame.At finished before.draft)
    (reads : before.scope.Reads lenient env frame fun name => expression.mentions name) :
    machine.Simulates lenient count (expression.eval calls env world)
      (.running frame callers globals world)
      fun result world config => ∃ later globals, config = .running later callers globals world ∧
        later.At finished after.draft ∧ later.locals = frame.locals ∧
        ∃ content, later.values condition.id = some content ∧ (content = 0 ↔ result = 0) := by
  rw [Expression.lowerToCondition] at lowered
  obtain ⟨value, middle, first, lowered⟩ := Step.bind_inv lowered
  have goes := goes_lower stands.ahead.isOpen first
  cases isBool : value.type.isBool with
  | true =>
      have same : condition = value ∧ after = middle := by
        rw [Step.after_write, Ir.Draft.toCondition, if_pos isBool] at lowered
        cases lowered
        exact ⟨rfl, rfl⟩
      obtain ⟨rfl, rfl⟩ := same
      apply (evaluates_lower answers expression proper first grows callers globals world stands
        reads).mono
      rintro result world _ ⟨later, globals, rfl, computes⟩
      obtain ⟨⟨-, held⟩, -⟩ := List.forall₂_cons.mp computes.values
      exact ⟨later, globals, rfl, computes.stands, computes.locals, result, held, Iff.rfl⟩
  | false =>
      rw [Step.after_write, Ir.Draft.toCondition_eq _ _ isBool] at lowered
      cases lowered
      have growsTest := Ir.Draft.grows_write goes.isOpen
        (.testNonZero (middle.draft.next .bool) value)
      apply (evaluates_lower answers expression proper first (growsTest.trans grows) callers globals
        world stands reads).andSteps
      rintro result world _ ⟨between, globals, rfl, computes⟩
      obtain ⟨⟨-, held⟩, -⟩ := List.forall₂_cons.mp computes.values
      let test : Nat := if result = 0 then 0 else 1
      have tests : machine.execute between.advance callers globals world
          (.testNonZero (middle.draft.next .bool) value) =
            some (.running (between.advance.define (middle.draft.next .bool) test) callers globals
              world) := by
        rw [Machine.execute, Frame.values_advance, held]
      obtain ⟨steps, stands⟩ :=
        machine.step_define callers globals world computes.stands grows tests
      refine ⟨_, steps, _, globals, rfl, stands, computes.locals, test, by simp, ?_⟩
      by_cases isZero : result = 0 <;> simp [test, isZero]

/-- An expression that has a value has it as its only result. -/
theorem simulates_results_of_eval {expression : Expression} {config : Config World} {world : World}
    {post : List Nat → World → Config World → Prop}
    (simulates : machine.Simulates lenient count (expression.eval calls env world) config
      fun value => post [value]) :
    machine.Simulates lenient count (expression.results calls env world) config post := by
  have single (other : Expression)
      (isOther : other.results calls env = do let value ← other.eval calls env; pure [value])
      (simulates : machine.Simulates lenient count (other.eval calls env world) config
        fun value => post [value]) :
      machine.Simulates lenient count (other.results calls env world) config post := by
    rw [isOther]
    exact simulates.bind fun value world later holds => .ok holds
  cases expression with
  | call callee arguments =>
      rw [Expression.eval, ← bind_assoc, Eval.bind_apply] at simulates
      rw [Expression.results]
      cases run : (do
          let values ← Expression.evalEach calls env arguments
          calls callee values : Eval World (List Nat)) world with
      | error stop =>
          rw [run] at simulates
          cases stop <;> exact simulates
      | ok pair =>
          obtain ⟨results, last⟩ := pair
          rw [run] at simulates
          rcases results with _ | ⟨result, _ | ⟨other, rest⟩⟩
          · exact simulates.elim
          · exact simulates
          · exact simulates.elim
  | identifier | literal | instructionCall | instruction => exact single _ rfl simulates

theorem simulates_perform (answers : Answers machine lenient count context arity calls)
    {expression : Expression} (proper : expression.isProper arity = true)
    (lowered : (expression.perform context).after before = (.ok (), after))
    (grows : after.draft.function.Grows finished) (callers : List Caller)
    (globals : Ir.GlobalId → Nat) (world : World) (stands : frame.At finished before.draft)
    (reads : before.scope.Reads lenient env frame fun name => expression.mentions name) :
    machine.Simulates lenient count (expression.results calls env world)
      (.running frame callers globals world)
      fun _ => Stays finished after.draft frame callers := by
  have evaluates (other : Expression) (proper : other.isProper arity = true)
      (lowered : (do let _ ← other.lower context : Step Unit).after before = (.ok (), after))
      (reads : before.scope.Reads lenient env frame fun name => other.mentions name) :
      machine.Simulates lenient count (other.results calls env world)
        (.running frame callers globals world) fun _ => Stays finished after.draft frame callers := by
    obtain ⟨value, middle, first, lowered⟩ := Step.bind_inv lowered
    cases lowered
    apply simulates_results_of_eval
    apply (evaluates_lower answers other proper first grows callers globals world stands reads).mono
    rintro result world _ ⟨later, globals, rfl, computes⟩
    exact ⟨later, globals, rfl, computes.stands, computes.locals⟩
  cases expression with
  | call callee arguments =>
      rw [Expression.perform] at lowered
      obtain ⟨target, resolved, lowered⟩ := Step.ofExcept_bind_inv lowered
      obtain ⟨outcome, middle, invoked, lowered⟩ := Step.bind_inv lowered
      cases lowered
      rw [Expression.isProper, Bool.and_eq_true] at proper
      rw [Expression.results]
      apply (simulates_invoke answers resolved proper.1
        (evaluates_lowerEach answers arguments proper.2) invoked grows callers globals world stands
        reads).mono
      rintro results world _ ⟨-, later, globals, rfl, receives⟩
      exact ⟨later, globals, rfl, receives.stands, receives.locals⟩
  | identifier name => exact evaluates (.identifier name) proper lowered reads
  | literal literal => exact evaluates (.literal literal) proper lowered reads
  | instructionCall mnemonic arguments =>
      exact evaluates (.instructionCall mnemonic arguments) proper lowered reads
  | instruction mnemonic => exact evaluates (.instruction mnemonic) proper lowered reads

/-- An expression that is a statement leaves alone what expressions leave alone. -/
theorem goes_perform {expression : Expression} (isOpen : before.draft.IsOpen)
    (lowered : (expression.perform context).after before = (.ok (), after)) : before.Goes after := by
  have evaluates (other : Expression)
      (lowered : (do let _ ← other.lower context : Step Unit).after before = (.ok (), after)) :
      before.Goes after := by
    obtain ⟨value, middle, first, ends⟩ := Step.bind_inv lowered
    cases ends
    exact goes_lower isOpen first
  cases expression with
  | call callee arguments =>
      rw [Expression.perform] at lowered
      obtain ⟨target, resolved, lowered⟩ := Step.ofExcept_bind_inv lowered
      obtain ⟨outcome, middle, invoked, ends⟩ := Step.bind_inv lowered
      cases ends
      exact goes_invoke resolved isOpen invoked
  | identifier name => exact evaluates (.identifier name) lowered
  | literal literal => exact evaluates (.literal literal) lowered
  | instructionCall mnemonic arguments => exact evaluates (.instructionCall mnemonic arguments) lowered
  | instruction mnemonic => exact evaluates (.instruction mnemonic) lowered

/-! ## Declarations -/

/-- Between two states variables have been declared, in order. -/
structure Declares (before after : State) (bindings : List Binding) : Prop where
  isOpen : after.draft.IsOpen
  scope : after.scope.bindings = before.scope.bindings ++ bindings
  spills : after.progress = before.progress
  grows : before.draft.function.Grows after.draft.function
  slots : bindings.map (fun binding => binding.slot.index) =
    List.range' before.draft.function.locals.length bindings.length
  locals : after.draft.function.locals.length =
    before.draft.function.locals.length + bindings.length

/-- New slots have been reserved when the machine goes on, and the old ones are the same. -/
theorem steps_declareAll (finished : Ir.Function) {declared : List TypedName} {bindings : List Binding}
    (lowered : (declareAll context declared).after before = (.ok bindings, after))
    (isOpen : before.draft.IsOpen) :
    Declares before after bindings ∧
      bindings.map Binding.name = declared.map TypedName.name ∧
      (after.draft.function.Grows finished → ∀ {frame : Frame} (callers : List Caller)
        (globals : Ir.GlobalId → Nat) (world : World), frame.At finished before.draft →
        ∃ later, machine.Steps (.running frame callers globals world)
            (.running later callers globals world) ∧
          later.At finished after.draft ∧
          frame.Agrees later before.draft.function.locals.length) := by
  induction declared generalizing before bindings with
  | nil =>
      cases lowered
      refine ⟨⟨isOpen, (List.append_nil _).symm, rfl, .refl _, rfl, rfl⟩, rfl, ?_⟩
      intro grows frame callers globals world stands
      exact ⟨frame, .refl, stands, .refl _ _⟩
  | cons head rest ih =>
      obtain ⟨name, typeName⟩ := head
      rw [declareAll] at lowered
      obtain ⟨type, -, lowered⟩ := Step.ofExcept_bind_inv lowered
      obtain ⟨slot, middle, declares, goesOn⟩ := Step.bind_inv lowered
      obtain ⟨others, last, second, ends⟩ := Step.bind_inv goesOn
      obtain ⟨rfl, rfl⟩ : slot = before.draft.nextLocal ∧ middle = before.declared name type := by
        rw [Step.after_declare] at declares
        cases declares
        exact ⟨rfl, rfl⟩
      obtain ⟨rfl, rfl⟩ : bindings = ⟨name, before.draft.nextLocal, type⟩ :: others ∧ after = last := by
        cases ends
        exact ⟨rfl, rfl⟩
      have stillOpen := Ir.Draft.isOpen_reserve isOpen name type
      obtain ⟨declares, names, steps⟩ := ih second stillOpen
      have reserves := Ir.Draft.grows_reserve before.draft name type
      refine ⟨⟨declares.isOpen, ?_, declares.spills, reserves.trans declares.grows, ?_, ?_⟩,
        congrArg (name :: ·) names, ?_⟩
      · rw [declares.scope]
        simp [State.declared, Scope.bind]
      · rw [List.map_cons, declares.slots]
        simp [State.declared, Ir.Draft.nextLocal, List.range'_succ]
      · rw [declares.locals]
        simp [State.declared, Nat.add_assoc, Nat.add_comm 1]
      · intro grows frame callers globals world stands
        obtain ⟨between, first, standsBetween, -, agreesFirst⟩ :=
          machine.steps_reserve callers globals world stands (declares.grows.trans grows)
        obtain ⟨later, others, standsLater, agrees⟩ := steps grows callers globals world standsBetween
        exact ⟨later, first.trans others, standsLater,
          agreesFirst.trans agrees reserves.locals.length_le⟩

/-! ## Assignments -/

/-- The machine has stored results to the slots of variables. -/
def Assigned (finished : Ir.Function) (after : Ir.Draft) (targets : List Binding) (frame : Frame)
    (callers : List Caller) (results : List Nat) (world : World) (config : Config World) : Prop :=
  results.length = targets.length ∧ ∃ later globals,
    config = .running later callers globals world ∧ later.At finished after ∧
      later.locals = (frame.setAll ((targets.map Binding.slot).zip results)).locals

/-- The machine takes results out of spill slots. -/
theorem steps_taken (targets : List (Binding × Ir.GlobalId)) {draft : Ir.Draft}
    (stands : frame.At finished draft)
    (grows : (writeAll draft (transferCode draft.function.valueSupply
      (targets.map .taken))).function.Grows finished)
    (declared : ∀ target ∈ targets, machine.declares target.2)
    (reserved : ∀ target ∈ targets, (frame.locals target.1.slot).isSome)
    (callers : List Caller) (globals : Ir.GlobalId → Nat) (world : World) :
    ∃ later, machine.Steps (.running frame callers globals world)
        (.running later callers globals world) ∧
      later.At finished
        (writeAll draft (transferCode draft.function.valueSupply (targets.map .taken))) ∧
      later.locals =
        (frame.setAll (targets.map fun target => (target.1.slot, globals target.2))).locals := by
  induction targets generalizing frame draft with
  | nil => exact ⟨frame, .refl, stands, rfl⟩
  | cons target rest ih =>
      obtain ⟨binding, slot⟩ := target
      let value : Ir.Value := draft.next binding.type
      let loaded := draft.write (.load value (.ofGlobal slot))
      let stored := loaded.write (.store (.ofLocal binding.slot) value)
      have isOpen := stands.ahead.isOpen
      have loadedOpen : loaded.IsOpen := Ir.Draft.isOpen_write isOpen _
      have storedOpen : stored.IsOpen := Ir.Draft.isOpen_write loadedOpen _
      have growsRest : stored.function.Grows finished :=
        (grows_writeAll storedOpen _).trans grows
      have growsLoaded : loaded.function.Grows finished :=
        (Ir.Draft.grows_write loadedOpen _).trans growsRest
      have loads : machine.execute frame.advance callers globals world
          (.load value (.ofGlobal slot)) =
            some (.running (frame.advance.define value (globals slot)) callers globals world) := by
        rw [Machine.execute, if_pos (declared _ List.mem_cons_self)]
      obtain ⟨stepsLoad, standsLoaded⟩ :=
        machine.step_define callers globals world stands growsLoaded loads
      have held : (frame.advance.define value (globals slot)).values value.id =
          some (globals slot) := by
        simp
      obtain ⟨stepsStore, standsStored⟩ := machine.step_store callers globals world standsLoaded
        growsRest (reserved _ List.mem_cons_self) held
      have reservedRest : ∀ target ∈ rest, (((frame.advance.define value (globals slot)).advance.set
          binding.slot (some (globals slot))).locals target.1.slot).isSome := by
        intro target member
        rw [Frame.locals_set]
        split
        · rfl
        · exact reserved target (List.mem_cons_of_mem _ member)
      obtain ⟨later, steps, standsLater, locals⟩ := ih standsStored grows
        (fun target member => declared target (List.mem_cons_of_mem _ member)) reservedRest
      have same : ((frame.advance.define value (globals slot)).advance.set binding.slot
          (some (globals slot))).locals = (frame.set binding.slot (some (globals slot))).locals := rfl
      exact ⟨later, (stepsLoad.trans stepsStore).trans steps, standsLater,
        locals.trans (Frame.locals_setAll_eq same _)⟩

/-- What is known about the results of a call that has been written. -/
theorem invoke_inv {target : Target} {arguments : List Expression} {outcome : CallOutcome}
    (lowered : (target.invoke context arguments).after before = (.ok outcome, after)) :
    outcome.count = target.resultCount ∧
      ∀ builtin, target = .builtin builtin → target.resultCount ≤ 1 := by
  rw [Target.invoke] at lowered
  cases target with
  | function signature =>
      rw [Target.invokeWith] at lowered
      obtain ⟨values, middle, -, writes⟩ := Step.bind_inv lowered
      rw [Signature.write, Step.after_bind, Step.after_write] at writes
      cases writes
      refine ⟨rfl, ?_⟩
      intro builtin isBuiltin
      cases isBuiltin
  | builtin builtin =>
      rw [Target.invokeWith] at lowered
      obtain ⟨external, isExternal, written⟩ := Step.ofExcept_bind_inv lowered
      have count : outcome.count = external.results.length := by
        dsimp only at written
        split at written
        all_goals
          obtain ⟨values, middle, -, writes⟩ := Step.bind_inv written
          cases writes
          rfl
      refine ⟨count.trans (length_resolveAll (external_inv isExternal).2.2.2), ?_⟩
      intro _ _
      exact length_results_le_of_external isExternal

/-- What has been written for a call whose results go to several variables. -/
structure AssignedResults (context : Context) (first : Binding) (others : List Binding)
    (callee : String) (arguments : List Expression) (target : Target) (outcome : CallOutcome)
    (value : Ir.Value) (before middle after : State) : Prop where
  resolved : context.resolveCall callee = .ok target
  count : target.resultCount = others.length + 1
  invoked : (target.invoke context arguments).after (before.reserved others.length) =
    (.ok outcome, middle)
  isFirst : outcome.first = some value
  enough : others.length ≤ middle.spills.slots.length
  after_eq : after = { middle with
    draft := writeAll (middle.draft.write (.store (.ofLocal first.slot) value))
      (transferCode (middle.draft.write (.store (.ofLocal first.slot) value)).function.valueSupply
        ((others.zip middle.spills.slots).map .taken)) }

theorem assignResults_inv {first : Binding} {others : List Binding} {callee : String}
    {arguments : List Expression} (isOpen : before.draft.IsOpen)
    (lowered : (assignResults context first others callee arguments).after before =
      (.ok (), after)) :
    ∃ target outcome value middle, AssignedResults context first others callee arguments target
      outcome value before middle after := by
  rw [assignResults] at lowered
  obtain ⟨target, resolved, checked⟩ := Step.ofExcept_bind_inv lowered
  dsimp only at checked
  split at checked
  · cases checked
  · next agrees =>
    obtain ⟨⟨⟩, between, reserves, invoking⟩ := Step.bind_inv checked
    obtain rfl : before.reserved others.length = between := by
      have isReserved : (Step.reserveSpills (others.length + 1 - 1)).after before =
          (.ok (), before.reserved others.length) := rfl
      rw [isReserved] at reserves
      cases reserves
      rfl
    obtain ⟨outcome, middle, invoked, storing⟩ := Step.bind_inv invoking
    have openReserved : (before.reserved others.length).draft.IsOpen := isOpen
    have goes := goes_invoke resolved openReserved invoked
    cases isFirst : outcome.first with
    | none =>
        rw [isFirst] at storing
        cases storing
    | some value =>
        rw [isFirst] at storing
        have enough : others.length ≤ middle.spills.slots.length := by
          rw [goes.spills]
          exact before.le_length_slots_reserved others.length
        simp only [Step.after_bind, Step.modify, Step.after_write, Ir.Draft.store_eq] at storing
        rw [after_unspill _ _ _ (by simpa using enough), List.drop_zero] at storing
        refine ⟨target, outcome, value, middle, resolved, Decidable.not_not.mp agrees, invoked,
          isFirst, enough, ?_⟩
        cases storing
        rfl

namespace AssignedResults

variable {first : Binding} {others : List Binding} {callee : String} {arguments : List Expression}
  {target : Target} {outcome : CallOutcome} {value : Ir.Value} {middle : State}

theorem goes (assigned : AssignedResults context first others callee arguments target outcome value
    before middle after) (isOpen : before.draft.IsOpen) :
    (before.reserved others.length).Goes middle :=
  goes_invoke assigned.resolved (show (before.reserved others.length).draft.IsOpen from isOpen)
    assigned.invoked

theorem outcome_count (assigned : AssignedResults context first others callee arguments target
    outcome value before middle after) : outcome.count = others.length + 1 :=
  (invoke_inv assigned.invoked).1.trans assigned.count

/-- The module has the spill slots that the results are taken from. -/
theorem length_le (assigned : AssignedResults context first others callee arguments target outcome
    value before middle after) (answers : Answers machine lenient count context arity calls) :
    others.length ≤ machine.module.globals.length := by
  have single := (invoke_inv assigned.invoked).2
  have size := assigned.count
  cases target with
  | function signature =>
      have known := answers.globals assigned.resolved
      rw [show signature.results.length = others.length + 1 from size] at known
      exact known
  | builtin builtin =>
      have few := single builtin rfl
      omega

/-- The spill slots that the results are taken from are the first ones. -/
theorem zip_eq (assigned : AssignedResults context first others callee arguments target outcome
    value before middle after) (isOpen : before.draft.IsOpen) (pooled : before.progress.Pooled) :
    others.zip middle.spills.slots = others.zip (spillSlots others.length) := by
  have enough := assigned.enough
  rw [(assigned.goes isOpen).spills] at enough ⊢
  exact (State.pooled_reserved pooled others.length).zip_slots enough

end AssignedResults

/-- An assignment declares nothing. -/
theorem grows_assign {targets : List Binding} {value : Expression} (isOpen : before.draft.IsOpen)
    (lowered : (assign context targets value).after before = (.ok (), after)) :
    after.scope = before.scope ∧ before.draft.function.Grows after.draft.function := by
  unfold assign at lowered
  split at lowered
  · cases lowered
  · next target =>
    obtain ⟨result, middle, first, storing⟩ := Step.bind_inv lowered
    have goes := goes_lower isOpen first
    cases storing
    exact ⟨goes.scope, goes.grows.trans (Ir.Draft.grows_write goes.isOpen _)⟩
  · next first others callee arguments _ =>
    obtain ⟨target, outcome, result, middle, assigned⟩ := assignResults_inv isOpen lowered
    have goes := assigned.goes isOpen
    rw [assigned.after_eq]
    have stored := Ir.Draft.isOpen_write goes.isOpen (.store (.ofLocal first.slot) result)
    exact ⟨goes.scope, (goes.grows.trans (Ir.Draft.grows_write goes.isOpen _)).trans
      (grows_writeAll stored _)⟩
  · cases lowered

/-- The variables that are paired with the first spill slots get the results that are in these. -/
theorem stores_eq {others : List Binding} {rest : List Nat} {globals : Ir.GlobalId → Nat}
    (size : rest.length = others.length)
    (held : ∀ index value, rest[index]? = some value → globals ⟨index⟩ = value) :
    (others.zip (spillSlots others.length)).map (fun target => (target.1.slot, globals target.2)) =
      (others.map Binding.slot).zip rest := by
  apply List.ext_getElem
  · simp [size]
  · intro index bound _
    have inRest : index < rest.length := by
      simp at bound
      omega
    simp [spillSlots, held index rest[index] (List.getElem?_eq_getElem inRest)]

/-- The results of a call go to several variables. -/
theorem simulates_assignResults (answers : Answers machine lenient count context arity calls)
    {first : Binding} {others : List Binding} {callee : String} {arguments : List Expression}
    (proper : (Expression.call callee arguments).isProper arity = true)
    (lowered : (assignResults context first others callee arguments).after before = (.ok (), after))
    (pooled : before.progress.Pooled) (grows : after.draft.function.Grows finished)
    (reserved : ∀ target ∈ first :: others, (frame.locals target.slot).isSome)
    (callers : List Caller) (globals : Ir.GlobalId → Nat) (world : World)
    (stands : frame.At finished before.draft)
    (reads : before.scope.Reads lenient env frame fun name =>
      (Expression.call callee arguments).mentions name) :
    machine.Simulates lenient count ((Expression.call callee arguments).results calls env world)
      (.running frame callers globals world)
      (Assigned finished after.draft (first :: others) frame callers) := by
  have isOpen := stands.ahead.isOpen
  obtain ⟨target, outcome, value, middle, assigned⟩ := assignResults_inv isOpen lowered
  have goes := assigned.goes isOpen
  let targets := others.zip middle.spills.slots
  let stored := middle.draft.write (.store (.ofLocal first.slot) value)
  have isAfter : after.draft =
      writeAll stored (transferCode stored.function.valueSupply (targets.map .taken)) := by
    rw [assigned.after_eq]
  rw [isAfter] at grows ⊢
  have storedOpen : stored.IsOpen := Ir.Draft.isOpen_write goes.isOpen _
  have growsStored : stored.function.Grows finished := (grows_writeAll storedOpen _).trans grows
  have growsMiddle : middle.draft.function.Grows finished :=
    (Ir.Draft.grows_write goes.isOpen _).trans growsStored
  rw [Expression.isProper, Bool.and_eq_true] at proper
  have readsReserved : (before.reserved others.length).scope.Reads lenient env frame fun name =>
    Expression.mentionsAny name arguments := reads
  rw [Expression.results]
  apply (simulates_invoke answers assigned.resolved proper.1
    (evaluates_lowerEach answers arguments proper.2) assigned.invoked growsMiddle callers globals
    world stands readsReserved).andSteps
  rintro results world _ ⟨size, received, globals, rfl, receives⟩
  rw [assigned.outcome_count] at size
  obtain ⟨result, rest, rfl⟩ := List.exists_cons_of_length_eq_add_one size
  have size : rest.length = others.length := Nat.succ.inj size
  -- The direct result is stored first, so it does not matter that its value is not used later.
  have held := (receives.first value assigned.isFirst).2
  have reservedFirst : (received.locals first.slot).isSome := by
    rw [receives.locals]
    exact reserved first List.mem_cons_self
  obtain ⟨stepsStore, standsStored⟩ :=
    machine.step_store callers globals world receives.stands growsStored reservedFirst held
  have areTargets : targets = others.zip (spillSlots others.length) := assigned.zip_eq isOpen pooled
  have declaredAll : ∀ target ∈ targets, machine.declares target.2 := by
    intro target member
    rw [areTargets] at member
    exact Nat.lt_of_lt_of_le (index_lt_of_mem_zip member) (assigned.length_le answers)
  have reservedAll : ∀ target ∈ targets, ((received.advance.set first.slot
      (some result)).locals target.1.slot).isSome := by
    intro target member
    rw [Frame.locals_set]
    split
    · rfl
    · rw [Frame.locals_advance, receives.locals]
      exact reserved _ (List.mem_cons_of_mem _ (List.of_mem_zip member).1)
  obtain ⟨later, steps, standsLater, locals⟩ := steps_taken targets standsStored grows
    declaredAll reservedAll callers globals world
  have stores : targets.map (fun target => (target.1.slot, globals target.2)) =
      (others.map Binding.slot).zip rest := by
    rw [areTargets]
    exact stores_eq size receives.others
  refine ⟨_, stepsStore.trans steps, by simp [size], later, globals, rfl, standsLater, ?_⟩
  rw [locals, stores]
  apply Frame.locals_setAll_eq
  funext id
  rw [Frame.locals_set, Frame.locals_set, Frame.locals_advance, receives.locals]

/-- The values of an expression go to variables. -/
theorem simulates_assign (answers : Answers machine lenient count context arity calls)
    {targets : List Binding} {value : Expression} (proper : value.isProper arity = true)
    (lowered : (assign context targets value).after before = (.ok (), after))
    (pooled : before.progress.Pooled) (grows : after.draft.function.Grows finished)
    (reserved : ∀ target ∈ targets, (frame.locals target.slot).isSome)
    (callers : List Caller) (globals : Ir.GlobalId → Nat) (world : World)
    (stands : frame.At finished before.draft)
    (reads : before.scope.Reads lenient env frame fun name => value.mentions name) :
    machine.Simulates lenient count (value.results calls env world)
      (.running frame callers globals world) (Assigned finished after.draft targets frame callers) := by
  unfold assign at lowered
  split at lowered
  · cases lowered
  · next target =>
    obtain ⟨result, middle, first, storing⟩ := Step.bind_inv lowered
    have goes := goes_lower stands.ahead.isOpen first
    have isAfter : after.draft = middle.draft.write (.store (.ofLocal target.slot) result) := by
      cases storing
      rfl
    rw [isAfter] at grows ⊢
    apply simulates_results_of_eval
    apply (evaluates_lower answers value proper first
      ((Ir.Draft.grows_write goes.isOpen _).trans grows) callers globals world stands reads).andSteps
    rintro content world _ ⟨between, globals, rfl, computes⟩
    obtain ⟨⟨-, held⟩, -⟩ := List.forall₂_cons.mp computes.values
    have reservedTarget : (between.locals target.slot).isSome := by
      rw [computes.locals]
      exact reserved target List.mem_cons_self
    obtain ⟨steps, standsLater⟩ :=
      machine.step_store callers globals world computes.stands grows reservedTarget held
    refine ⟨_, steps, rfl, _, globals, rfl, standsLater, ?_⟩
    funext id
    show (if id = target.slot then some (some content) else between.locals id) = _
    rw [computes.locals]
    rfl
  · exact simulates_assignResults answers proper lowered pooled grows reserved callers globals world
      stands reads
  · cases lowered

end YulLowering.Lowering
