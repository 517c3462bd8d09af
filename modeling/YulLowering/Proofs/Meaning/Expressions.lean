import YulLowering.Proofs.Meaning.Simulation
import YulLowering.Proofs.Meaning.Variables
import YulLowering.Proofs.Signatures

/-!
# Expressions on the machine

Where an expression has been lowered, the machine computes what the source run computes. It leaves
the local slots alone and keeps the values that there were, so an argument is still there when the
arguments after it have been computed. What a call does is taken from what its callee does.
-/

namespace YulLowering.Lowering

open Ir (Frame Caller Config Machine)

variable {World : Type}

/-! ## What is known about calls -/

/-- The machine has returned from a function: the first result is there directly, and the others are
in spill slots. -/
def Returned (size : Nat) (callers : List Caller) (results : List Nat) (world : World)
    (config : Config World) : Prop :=
  results.length = size ∧ ∃ globals, config = .returning results.head? callers globals world ∧
    ∀ index value, results[index + 1]? = some value → globals ⟨index⟩ = value

/-- The machine does what calls do in the source. A function need not take as many steps as its
callers, which take one before it. -/
structure Answers (machine : Machine World) (lenient : Bool) (count : Nat) (context : Context)
    (arity : String → Option Nat) (calls : Calls World) : Prop where
  builtin : ∀ {name : String} {builtin : Builtin}, context.dialect.lookup name = some builtin →
    calls name = callBuiltin machine.interpretation builtin
  function : ∀ {name : String} {signature : Signature} {arguments : List Nat},
    context.resolveCall name = .ok (.function signature) →
    (arity name).all (fun size => arguments.length == size) = true →
    ∃ function inner, machine.module.function? signature.id = some function ∧
      function.call? arguments = some inner ∧
      ∀ callers globals world, machine.Simulates lenient (count - 1) (calls name arguments world)
        (.running inner callers globals world) (Returned signature.results.length callers)
  globals : ∀ {name : String} {signature : Signature},
    context.resolveCall name = .ok (.function signature) →
    signature.results.length - 1 ≤ machine.module.globals.length

/-! ## What expressions leave alone -/

/-- What is the same when an expression has been lowered. -/
structure State.Goes (before after : State) : Prop where
  isOpen : after.draft.IsOpen
  scope : after.scope = before.scope
  loops : after.loops = before.loops
  spills : after.spills = before.spills
  grows : before.draft.function.Grows after.draft.function

namespace State.Goes

theorem write {state : State} (isOpen : state.draft.IsOpen) (instruction : Ir.Instruction) :
    state.Goes { state with draft := state.draft.write instruction } where
  isOpen := Ir.Draft.isOpen_write isOpen instruction
  scope := rfl
  loops := rfl
  spills := rfl
  grows := Ir.Draft.grows_write isOpen instruction

theorem of_runs {α : Type} {context : Context} {step : Step α} (values : α → List Ir.Value)
    {before after : State} {result : α}
    (runs : Runs context [] (.resting before) step fun result finish =>
      Evaluated (.resting before) (values result) finish)
    (lowered : step.after before = (.ok result, after)) : before.Goes after := by
  obtain ⟨finish, moves, rfl, evaluated⟩ := runs.holds lowered
  exact ⟨evaluated.isOpen, evaluated.scope, evaluated.loops, evaluated.spills, moves.grows⟩

end State.Goes

variable {context : Context} {before after : State}

theorem goes_lower {expression : Expression} {value : Ir.Value} (isOpen : before.draft.IsOpen)
    (lowered : (expression.lower context).after before = (.ok value, after)) :
    before.Goes after :=
  .of_runs (fun value => [value]) (runs_lower expression isOpen) lowered

theorem goes_lowerEach {arguments : List Expression} {values : List Ir.Value}
    (isOpen : before.draft.IsOpen)
    (lowered : (Expression.lowerEach context arguments).after before = (.ok values, after)) :
    before.Goes after :=
  .of_runs id (runs_lowerEach arguments isOpen) lowered

theorem goes_lowerLiterals {arguments : List Expression} {values : List Ir.Value}
    {builtin : String} {index : Nat} (isOpen : before.draft.IsOpen)
    (lowered : (Expression.lowerLiterals context builtin index arguments).after before =
      (.ok values, after)) : before.Goes after :=
  .of_runs id (runs_lowerLiterals isOpen builtin index arguments) lowered

theorem goes_signature_write {signature : Signature} {values : List Ir.Value}
    {outcome : CallOutcome} (isOpen : before.draft.IsOpen)
    (lowered : (signature.write values).after before = (.ok outcome, after)) :
    before.Goes after := by
  rw [Signature.write, Step.after_bind, Step.after_write, Ir.Draft.call_eq] at lowered
  cases lowered
  exact .write isOpen _

/-- The call of a builtin is written behind its declaration. -/
theorem after_writeExternal (external : Ir.External) (values : List Ir.Value) (state : State) :
    (writeExternal external values).after state =
      let dest := state.draft.callResult (external.results.head?.getD .void)
      (.ok ⟨dest, external.results.length⟩,
        { state.imported external with
          draft := state.draft.write (.call dest (.builtin external.name external.effects) values) }) := by
  have imported : (Step.declareExternal external).after state = (.ok (), state.imported external) := rfl
  rw [writeExternal, Step.after_bind, imported]
  dsimp only
  rw [Step.after_bind, Step.after_write, Ir.Draft.call_eq]
  rfl

theorem goes_writeExternal {external : Ir.External} {values : List Ir.Value}
    {outcome : CallOutcome} (isOpen : before.draft.IsOpen)
    (lowered : (writeExternal external values).after before = (.ok outcome, after)) :
    before.Goes after := by
  rw [after_writeExternal] at lowered
  cases lowered
  exact ⟨Ir.Draft.isOpen_write isOpen _, rfl, rfl, rfl, Ir.Draft.grows_write isOpen _⟩

/-! ## What is computed -/

/-- Between two states values have been computed, and the slots and the values that there were are
the same. -/
structure Computes (finished : Ir.Function) (before after : Ir.Draft) (values : List Ir.Value)
    (results : List Nat) (frame later : Frame) : Prop where
  stands : later.At finished after
  locals : later.locals = frame.locals
  kept : ∀ id : Ir.ValueId, id.index < before.function.valueSupply →
    later.values id = frame.values id
  values : List.Forall₂ (fun value result => value.id.index < after.function.valueSupply ∧
    later.values value.id = some result) values results

/-- The machine has computed values and goes on in the same function. -/
def Computed (finished : Ir.Function) (before after : Ir.Draft) (values : List Ir.Value)
    (frame : Frame) (callers : List Caller) (results : List Nat) (world : World)
    (config : Config World) : Prop :=
  ∃ later globals, config = .running later callers globals world ∧
    Computes finished before after values results frame later

variable {finished : Ir.Function} {frame : Frame}

namespace Computes

variable {before after : Ir.Draft}

theorem nil (stands : frame.At finished before) :
    Computes finished before before [] [] frame frame :=
  ⟨stands, rfl, fun _ _ => rfl, .nil⟩

/-- The first of several values is still there when the others have been computed. -/
theorem cons {middle : Ir.Draft} {value : Ir.Value} {values : List Ir.Value} {result : Nat}
    {results : List Nat} {between later : Frame}
    (first : Computes finished before middle [value] [result] frame between)
    (others : Computes finished middle after values results between later)
    (firstGrows : before.function.Grows middle.function)
    (grows : middle.function.Grows after.function) :
    Computes finished before after (value :: values) (result :: results) frame later := by
  constructor
  case stands => exact others.stands
  case locals => exact others.locals.trans first.locals
  case kept =>
    intro id old
    have still : id.index < middle.function.valueSupply :=
      Nat.lt_of_lt_of_le old firstGrows.valueSupply
    exact (others.kept id still).trans (first.kept id old)
  case values =>
    obtain ⟨⟨bound, isResult⟩, -⟩ := List.forall₂_cons.mp first.values
    refine .cons ⟨Nat.lt_of_lt_of_le bound grows.valueSupply, ?_⟩ others.values
    rw [others.kept value.id bound]
    exact isResult

/-- An instruction has defined a value. -/
theorem define {instruction : Ir.Instruction} {type : Ir.ValueType} {content : Nat}
    (stands : (frame.advance.define (before.next type) content).At finished
      (before.write instruction)) (defines : instruction.dest? = some (before.next type)) :
    Computes finished before (before.write instruction) [before.next type] [content] frame
      (frame.advance.define (before.next type) content) := by
  constructor
  case stands => exact stands
  case locals => rfl
  case kept =>
    intro id old
    rw [Frame.values_define, if_neg]
    · rfl
    · rintro rfl
      exact Nat.lt_irrefl _ old
  case values =>
    refine .cons ⟨?_, by simp⟩ .nil
    rw [Ir.Draft.valueSupply_write, defines]
    exact Nat.lt_succ_self _

theorem read {values : List Ir.Value} {results : List Nat} {later : Frame}
    (computes : Computes finished before after values results frame later) :
    later.read values = some results := by
  have known := computes.values
  unfold Frame.read
  induction known with
  | nil => rfl
  | cons here _ ih =>
      rw [List.mapM_cons, here.2]
      simp [ih ⟨computes.stands, computes.locals, computes.kept, ‹_›⟩]

end Computes

/-! ## Calls -/

/-- The machine has made a call: the first result is in the value that the call defines, if it
defines one, and the others are in spill slots. -/
structure Receives (finished : Ir.Function) (before after : Ir.Draft) (first : Option Ir.Value)
    (results : List Nat) (globals : Ir.GlobalId → Nat) (frame later : Frame) : Prop where
  stands : later.At finished after
  locals : later.locals = frame.locals
  kept : ∀ id : Ir.ValueId, id.index < before.function.valueSupply →
    later.values id = frame.values id
  first : ∀ value ∈ first, value.id.index < after.function.valueSupply ∧
    later.values value.id = results.head?
  others : ∀ index value, results[index + 1]? = some value → globals ⟨index⟩ = value

/-- The machine has made a call and goes on in the same function. -/
def Received (finished : Ir.Function) (before after : Ir.Draft) (outcome : CallOutcome)
    (frame : Frame) (callers : List Caller) (results : List Nat) (world : World)
    (config : Config World) : Prop :=
  results.length = outcome.count ∧ ∃ later globals,
    config = .running later callers globals world ∧
      Receives finished before after outcome.first results globals frame later

/-- Before a call its arguments may be computed. -/
theorem Receives.after_computes {before middle after : Ir.Draft} {values : List Ir.Value} {arguments : List Nat}
    {first : Option Ir.Value} {results : List Nat} {globals : Ir.GlobalId → Nat}
    {between later : Frame}
    (computes : Computes finished before middle values arguments frame between)
    (receives : Receives finished middle after first results globals between later)
    (grows : before.function.Grows middle.function) :
    Receives finished before after first results globals frame later where
  stands := receives.stands
  locals := receives.locals.trans computes.locals
  kept := by
    intro id old
    have still : id.index < middle.function.valueSupply :=
      Nat.lt_of_lt_of_le old grows.valueSupply
    exact (receives.kept id still).trans (computes.kept id old)
  first := receives.first
  others := receives.others

/-- A call that has a result takes it where the machine has one. -/
theorem exists_accept? (frame : Frame) {dest : Option Ir.Value} {result : Option Nat}
    (has : dest.isSome → result.isSome) :
    ∃ later, frame.accept? dest result = some later ∧
      later.function = frame.function ∧ later.code = frame.code ∧
      later.terminator = frame.terminator ∧ later.locals = frame.locals ∧
      (∀ value ∈ dest, later.values value.id = result) ∧
      ∀ id : Ir.ValueId, (∀ value ∈ dest, value.id ≠ id) → later.values id = frame.values id := by
  cases dest with
  | none =>
      refine ⟨frame, rfl, rfl, rfl, rfl, rfl, ?_, fun _ _ => rfl⟩
      intro value isDest
      cases isDest
  | some dest =>
      obtain ⟨content, rfl⟩ := Option.isSome_iff_exists.mp (has rfl)
      refine ⟨frame.define dest content, rfl, rfl, rfl, rfl, rfl, ?_, ?_⟩
      · intro value isDest
        cases isDest
        simp
      · intro id differs
        simp [Ne.symm (differs dest rfl)]

variable {machine : Machine World} {lenient : Bool} {count : Nat} {arity : String → Option Nat}
  {calls : Calls World}

/-- After a call the machine stands behind it. -/
theorem receives_of_accept {draft : Ir.Draft} {results : List Nat} {globals : Ir.GlobalId → Nat} {type : Ir.ValueType}
    {callee : Ir.Callee} {arguments : List Ir.Value}
    (stands : frame.advance.At finished
      (draft.write (.call (draft.callResult type) callee arguments)))
    (has : type ≠ .void → results.head?.isSome)
    (others : ∀ index value, results[index + 1]? = some value → globals ⟨index⟩ = value) :
    ∃ later, frame.advance.accept? (draft.callResult type) results.head? = some later ∧
      Receives finished draft
        (draft.write (.call (draft.callResult type) callee arguments))
        (draft.callResult type) results globals frame later := by
  have isNext : ∀ value ∈ draft.callResult type, value = draft.next type :=
    fun _ isResult => Ir.Draft.callResult_eq_some isResult
  have wants : (draft.callResult type).isSome → results.head?.isSome := by
    intro isSome
    apply has
    rintro rfl
    cases isSome
  obtain ⟨later, accepts, function, code, terminator, locals, isFirst, kept⟩ :=
    exists_accept? frame.advance wants
  refine ⟨later, accepts, ⟨?_, locals, ?_, ?_, others⟩⟩
  · refine ⟨function.trans stands.function, ?_, ?_⟩
    · rw [code, terminator]
      exact stands.ahead
    · rw [locals]
      exact stands.reserved
  · intro id old
    apply kept
    rintro value isResult rfl
    rw [isNext value isResult] at old
    exact Nat.lt_irrefl _ old
  · intro value isResult
    refine ⟨?_, isFirst value isResult⟩
    rw [isNext value isResult]
    show draft.function.valueSupply < draft.function.valueSupply + _
    rw [show draft.callResult type = some value from isResult]
    exact Nat.lt_succ_self _

theorem simulates_signature_write (answers : Answers machine lenient count context arity calls)
    {name : String} {signature : Signature} {outcome : CallOutcome} {values : List Ir.Value}
    {arguments : List Nat} (resolved : context.resolveCall name = .ok (.function signature))
    (lowered : (signature.write values).after before = (.ok outcome, after))
    (grows : after.draft.function.Grows finished)
    (fits : (arity name).all (fun size => arguments.length == size) = true)
    (stands : frame.At finished before.draft) (read : frame.read values = some arguments)
    (callers : List Caller) (globals : Ir.GlobalId → Nat) (world : World) :
    machine.Simulates lenient count (calls name arguments world)
      (.running frame callers globals world)
      (Received finished before.draft after.draft outcome frame callers) := by
  rw [Signature.write, Step.after_bind, Step.after_write, Ir.Draft.call_eq] at lowered
  cases lowered
  obtain ⟨function, inner, isFunction, starts, simulates⟩ := answers.function resolved fits
  obtain ⟨isCode, advanced⟩ := stands.advance grows
  let dest := before.draft.callResult signature.resultType
  have enters : machine.step (.running frame callers globals world) =
      some (.running inner (⟨frame.advance, dest⟩ :: callers) globals world) := by
    rw [machine.step_of_code callers globals world isCode, Machine.execute]
    have readAdvanced : frame.advance.read values = some arguments := read
    simp [isFunction, readAdvanced, starts, dest]
  -- The step into the callee is one of those that are asked for.
  have enough : count ≤ count - 1 + 1 := by omega
  refine Ir.Machine.Simulates.fewer ?_ enough
  apply Ir.Machine.Simulates.of_step enters
  apply (simulates _ globals world).andSteps
  rintro results world _ ⟨length, globals, rfl, others⟩
  have has : signature.resultType ≠ .void → results.head?.isSome := by
    intro isValue
    cases results with
    | nil =>
        have none : signature.results = [] := List.length_eq_zero_iff.mp length.symm
        simp [Signature.resultType, none] at isValue
    | cons => rfl
  obtain ⟨later, accepts, receives⟩ := receives_of_accept advanced has others
  refine ⟨.running later callers globals world, .single ?_, length, later, globals, rfl, receives⟩
  rw [Machine.step, accepts]
  rfl

theorem simulates_writeExternal (answers : Answers machine lenient count context arity calls)
    {name : String} {builtin : Builtin} {external : Ir.External} {outcome : CallOutcome}
    {values : List Ir.Value} {arguments : List Nat}
    (found : context.dialect.lookup name = some builtin)
    (isExternal : context.external builtin = .ok external)
    (lowered : (writeExternal external values).after before = (.ok outcome, after))
    (grows : after.draft.function.Grows finished)
    (stands : frame.At finished before.draft) (read : frame.read values = some arguments)
    (callers : List Caller) (globals : Ir.GlobalId → Nat) (world : World) :
    machine.Simulates lenient count (calls name arguments world)
      (.running frame callers globals world)
      (Received finished before.draft after.draft outcome frame callers) := by
  rw [after_writeExternal] at lowered
  cases lowered
  obtain ⟨isName, -, -, areResults⟩ := external_inv isExternal
  have length : external.results.length = builtin.results.length := length_resolveAll areResults
  obtain ⟨isCode, advanced⟩ := stands.advance grows
  rw [answers.builtin found, callBuiltin, if_pos (length_results_le_of_external isExternal)]
  let answer := machine.interpretation builtin.name arguments world
  let results := builtin.results.map fun _ => answer.1
  let type := external.results.head?.getD .void
  have has : type ≠ .void → results.head? = some answer.1 := by
    intro isValue
    cases isEmpty : builtin.results with
    | nil =>
        rw [isEmpty] at length
        simp [type, List.length_eq_zero_iff.mp length] at isValue
    | cons => simp [results, isEmpty, List.replicate_succ]
  have others (index value : Nat) : results[index + 1]? = some value → globals ⟨index⟩ = value := by
    intro isOther
    obtain ⟨bound, -⟩ := List.getElem?_eq_some_iff.mp isOther
    have few := length_results_le_of_external isExternal
    simp only [results, List.length_map] at bound
    omega
  obtain ⟨later, accepts, receives⟩ := receives_of_accept advanced
    (fun isValue => by simp [has isValue]) others
  have takes : frame.advance.accept? (before.draft.callResult type) (some answer.1) = some later := by
    by_cases isValue : type = .void
    · have none : before.draft.callResult type = none := by
        rw [isValue]
        rfl
      have accepts : frame.advance.accept? (before.draft.callResult type) results.head? = some later :=
        accepts
      rw [none] at accepts ⊢
      exact accepts
    · rw [← has isValue]
      exact accepts
  refine ⟨.running later callers globals answer.2, .single ?_, ?_, later, globals, rfl, receives⟩
  · rw [machine.step_of_code callers globals world isCode, Machine.execute]
    have readAdvanced : frame.advance.read values = some arguments := read
    rw [readAdvanced, isName]
    exact congrArg (Option.map fun frame => Config.running frame callers globals answer.2) takes
  · rw [List.length_map]
    exact length.symm

/-! ## Arguments -/

/-- The machine computes what a step has written. `given` and `wanted` list the values on both
sides. -/
def Evaluates {α β : Type} (machine : Machine World) (lenient : Bool) (count : Nat)
    (finished : Ir.Function) (names : String → Bool) (step : Step α) (given : α → List Ir.Value)
    (source : Env → Eval World β) (wanted : β → List Nat) : Prop :=
  ∀ ⦃before after : State⦄ ⦃result : α⦄, step.after before = (.ok result, after) →
    after.draft.function.Grows finished →
    ∀ {env : Env} {frame : Frame} (callers : List Caller) (globals : Ir.GlobalId → Nat)
      (world : World), frame.At finished before.draft →
      before.scope.Reads lenient env frame names →
      machine.Simulates lenient count (source env world) (.running frame callers globals world)
        fun values => Computed finished before.draft after.draft (given result) frame callers
          (wanted values)

theorem evaluates_literal (calls : Calls World) (literal : Literal) (names : String → Bool) :
    Evaluates machine lenient count finished names (literal.lower context) (fun value => [value])
      (fun env => (Expression.literal literal).eval calls env) fun value => [value] := by
  intro before after value lowered grows env frame callers globals world stands reads
  rw [Literal.lower] at lowered
  obtain ⟨type, -, lowered⟩ := Step.ofExcept_bind_inv lowered
  obtain ⟨constant, fits, lowered⟩ := Step.ofExcept_bind_inv lowered
  rw [Step.after_write, Ir.Draft.const_eq] at lowered
  cases lowered
  show machine.Simulates lenient count ((Expression.literal literal).eval calls env world) _ _
  rw [Expression.eval, (Literal.valueAt_eq_ok_iff.mp fits).1]
  obtain ⟨steps, stands⟩ := machine.step_define callers globals world stands grows rfl
  apply Ir.Machine.Simulates.of_steps steps
  exact .ok ⟨_, globals, rfl, .define stands rfl⟩

theorem evaluates_lowerLiterals (calls : Calls World) (names : String → Bool) (builtin : String)
    (index : Nat) (arguments : List Expression) :
    Evaluates machine lenient count finished names
      (Expression.lowerLiterals context builtin index arguments) id
      (fun env => Expression.evalEach calls env arguments) id := by
  induction arguments generalizing index with
  | nil =>
      intro before after values lowered grows env frame callers globals world stands reads
      cases lowered
      exact .ok ⟨frame, globals, rfl, .nil stands⟩
  | cons argument rest ih =>
      intro before after values lowered grows env frame callers globals world stands reads
      cases argument with
      | literal written =>
          rw [Expression.lowerLiterals] at lowered
          obtain ⟨value, middle, first, lowered⟩ := Step.bind_inv lowered
          obtain ⟨others, last, second, lowered⟩ := Step.bind_inv lowered
          cases lowered
          have goesFirst : before.Goes middle :=
            .of_runs (fun value => [value]) (runs_literal stands.ahead.isOpen written) first
          have goesOthers := goes_lowerLiterals goesFirst.isOpen second
          show machine.Simulates lenient count (Expression.evalEach calls env (_ :: _) world) _ _
          rw [Expression.evalEach]
          apply Ir.Machine.Simulates.bind (evaluates_literal calls written names first
            (goesOthers.grows.trans grows) callers globals world stands reads)
          rintro result world _ ⟨between, globals, rfl, computed⟩
          have stillReads : middle.scope.Reads lenient env between names := by
            rw [goesFirst.scope]
            exact reads.of_locals_eq computed.locals
          apply Ir.Machine.Simulates.bind (ih (index + 1) second grows callers globals world
            computed.stands stillReads)
          rintro results world _ ⟨later, globals, rfl, computedOthers⟩
          exact .ok ⟨later, globals, rfl,
            .cons computed computedOthers goesFirst.grows goesOthers.grows⟩
      | identifier | call | instructionCall | instruction => cases lowered

theorem length_lowerEach {arguments : List Expression} {values : List Ir.Value}
    (lowered : (Expression.lowerEach context arguments).after before = (.ok values, after)) :
    values.length = arguments.length := by
  induction arguments generalizing before after values with
  | nil =>
      cases lowered
      rfl
  | cons argument rest ih =>
      rw [Expression.lowerEach] at lowered
      obtain ⟨value, middle, -, lowered⟩ := Step.bind_inv lowered
      obtain ⟨others, last, second, lowered⟩ := Step.bind_inv lowered
      cases lowered
      exact congrArg (· + 1) (ih second)

/-- A call computes its arguments and does what its callee does. -/
theorem simulates_invoke (answers : Answers machine lenient count context arity calls)
    {callee : String} {target : Target} {arguments : List Expression} {names : String → Bool}
    (resolved : context.resolveCall callee = .ok target)
    (fits : (arity callee).all (fun size => arguments.length == size) = true)
    (evaluates : Evaluates machine lenient count finished names
      (Expression.lowerEach context arguments) id
      (fun env => Expression.evalEach calls env arguments) id)
    {outcome : CallOutcome}
    (lowered : (target.invoke context arguments).after before = (.ok outcome, after))
    (grows : after.draft.function.Grows finished) {env : Env} (callers : List Caller)
    (globals : Ir.GlobalId → Nat) (world : World) (stands : frame.At finished before.draft)
    (reads : before.scope.Reads lenient env frame names) :
    machine.Simulates lenient count
      ((do
        let values ← Expression.evalEach calls env arguments
        calls callee values : Eval World (List Nat)) world)
      (.running frame callers globals world)
      (Received finished before.draft after.draft outcome frame callers) := by
  rw [Target.invoke] at lowered
  cases target with
  | function signature =>
      rw [Target.invokeWith] at lowered
      obtain ⟨values, middle, first, lowered⟩ := Step.bind_inv lowered
      have goes := goes_lowerEach stands.ahead.isOpen first
      have writes := goes_signature_write goes.isOpen lowered
      apply Ir.Machine.Simulates.bind (evaluates first (writes.grows.trans grows) callers globals
        world stands reads)
      rintro results world _ ⟨between, globals, rfl, computes⟩
      have length : results.length = arguments.length := by
        rw [← length_lowerEach first]
        exact computes.values.length_eq.symm
      apply (simulates_signature_write answers resolved lowered grows
        (by simpa [length] using fits) computes.stands computes.read callers globals world).mono
      rintro answers world _ ⟨size, later, globals, rfl, receives⟩
      exact ⟨size, later, globals, rfl, receives.after_computes computes goes.grows⟩
  | builtin builtin =>
      rw [Target.invokeWith] at lowered
      obtain ⟨external, isExternal, lowered⟩ := Step.ofExcept_bind_inv lowered
      obtain ⟨values, middle, goes, simulates, lowered⟩ : ∃ values middle, before.Goes middle ∧
          (middle.draft.function.Grows finished → machine.Simulates lenient count
            (Expression.evalEach calls env arguments world)
            (.running frame callers globals world)
            (Computed finished before.draft middle.draft values frame callers)) ∧
          (writeExternal external values).after middle = (.ok outcome, after) := by
        dsimp only at lowered
        split at lowered
        · obtain ⟨values, middle, first, lowered⟩ := Step.bind_inv lowered
          exact ⟨values, middle, goes_lowerLiterals stands.ahead.isOpen first, fun grows =>
            evaluates_lowerLiterals calls names builtin.name 0 arguments first grows callers globals
              world stands reads, lowered⟩
        · obtain ⟨values, middle, first, lowered⟩ := Step.bind_inv lowered
          exact ⟨values, middle, goes_lowerEach stands.ahead.isOpen first, fun grows =>
            evaluates first grows callers globals world stands reads, lowered⟩
      have writes := goes_writeExternal goes.isOpen lowered
      apply Ir.Machine.Simulates.bind (simulates (writes.grows.trans grows))
      rintro results world _ ⟨between, globals, rfl, computes⟩
      apply (simulates_writeExternal answers (lookup_of_resolveCall resolved) isExternal lowered
        grows computes.stands computes.read callers globals world).mono
      rintro answers world _ ⟨size, later, globals, rfl, receives⟩
      exact ⟨size, later, globals, rfl, receives.after_computes computes goes.grows⟩

/-! ## Expressions -/

mutual

/-- Where an expression has been lowered, the machine computes its value. -/
theorem evaluates_lower (answers : Answers machine lenient count context arity calls) :
    (expression : Expression) → expression.isProper arity = true →
    Evaluates machine lenient count finished (fun name => expression.mentions name)
      (expression.lower context) (fun value => [value]) (fun env => expression.eval calls env)
      fun value => [value]
  | .identifier name, _ => by
      intro before after value lowered grows env frame callers globals world stands reads
      rw [Expression.lower] at lowered
      obtain ⟨binding, middle, looked, lowered⟩ := Step.bind_inv lowered
      have looks : Runs context [] (.resting before) (Step.lookup name) _ := runs_lookup name
      obtain ⟨_, -, rfl, rfl, found⟩ := looks.holds looked
      rw [Step.after_write, Ir.Draft.load_eq] at lowered
      cases lowered
      have mentioned : (Expression.identifier name).mentions name = true := by
        simp [Expression.mentions]
      obtain ⟨content, isEntry, holds, unset⟩ := reads name binding mentioned found
      show machine.Simulates lenient count ((Expression.identifier name).eval calls env world) _ _
      rw [Expression.eval, isEntry]
      cases content with
      | none => exact unset rfl
      | some content =>
          obtain ⟨steps, stands⟩ :=
            machine.step_load callers globals world stands grows (holds content rfl)
          apply Ir.Machine.Simulates.of_steps steps
          exact .ok ⟨_, globals, rfl, .define stands rfl⟩
  | .literal written, _ => by
      rw [Expression.lower]
      exact evaluates_literal calls written _
  | .call callee arguments, proper => by
      intro before after value lowered grows env frame callers globals world stands reads
      rw [Expression.isProper, Bool.and_eq_true] at proper
      rw [Expression.lower] at lowered
      obtain ⟨target, resolved, lowered⟩ := Step.ofExcept_bind_inv lowered
      obtain ⟨outcome, middle, invoked, lowered⟩ := Step.bind_inv lowered
      have isSingle : outcome.single = .ok value ∧ middle = after := by
        rw [Step.after_ofExcept] at lowered
        cases single : outcome.single <;> rw [single] at lowered <;> cases lowered
        exact ⟨rfl, rfl⟩
      obtain ⟨single, rfl⟩ := isSingle
      have invokes := simulates_invoke answers resolved proper.1
        (evaluates_lowerEach answers arguments proper.2) invoked grows callers globals world stands
        reads
      show machine.Simulates lenient count ((Expression.call callee arguments).eval calls env world)
        _ _
      have whole : (Expression.call callee arguments).eval calls env =
          ((do
            let values ← Expression.evalEach calls env arguments
            calls callee values : Eval World (List Nat)) >>= fun results =>
              match results with
              | [result] => pure result
              | _ => throw .stuck) := by
        rw [Expression.eval]
        exact (bind_assoc ..).symm
      rw [whole]
      apply Ir.Machine.Simulates.bind invokes
      rintro results world _ ⟨size, later, globals, rfl, receives⟩
      obtain ⟨isFirst, one⟩ := CallOutcome.eq_of_single single
      obtain ⟨result, rfl⟩ := List.length_eq_one_iff.mp (size.trans one)
      exact .ok ⟨later, globals, rfl, receives.stands, receives.locals, receives.kept,
        .cons (receives.first value isFirst) .nil⟩
  | .instructionCall mnemonic _, _ => by
      intro before after value lowered
      rw [Expression.lower] at lowered
      cases lowered
  | .instruction mnemonic, _ => by
      intro before after value lowered
      rw [Expression.lower] at lowered
      cases lowered

/-- Where arguments have been lowered, the machine computes their values. -/
theorem evaluates_lowerEach (answers : Answers machine lenient count context arity calls) :
    (arguments : List Expression) → Expression.areProper arity arguments = true →
    Evaluates machine lenient count finished (fun name => Expression.mentionsAny name arguments)
      (Expression.lowerEach context arguments) id
      (fun env => Expression.evalEach calls env arguments) id
  | [], _ => by
      intro before after values lowered grows env frame callers globals world stands reads
      cases lowered
      exact .ok ⟨frame, globals, rfl, .nil stands⟩
  | argument :: rest, proper => by
      intro before after values lowered grows env frame callers globals world stands reads
      rw [Expression.areProper, Bool.and_eq_true] at proper
      rw [Expression.lowerEach] at lowered
      obtain ⟨value, middle, first, lowered⟩ := Step.bind_inv lowered
      obtain ⟨others, last, second, lowered⟩ := Step.bind_inv lowered
      cases lowered
      have goesFirst := goes_lower stands.ahead.isOpen first
      have goesOthers := goes_lowerEach goesFirst.isOpen second
      have readsFirst : before.scope.Reads lenient env frame fun name => argument.mentions name :=
        reads.mono fun name mentioned => by simp [Expression.mentionsAny, mentioned]
      have readsOthers : before.scope.Reads lenient env frame fun name =>
          Expression.mentionsAny name rest :=
        reads.mono fun name mentioned => by simp [Expression.mentionsAny, mentioned]
      show machine.Simulates lenient count (Expression.evalEach calls env (_ :: _) world) _ _
      rw [Expression.evalEach]
      apply Ir.Machine.Simulates.bind (evaluates_lower answers argument proper.1 first
        (goesOthers.grows.trans grows) callers globals world stands readsFirst)
      rintro result world _ ⟨between, globals, rfl, computed⟩
      have stillReads : middle.scope.Reads lenient env between fun name =>
          Expression.mentionsAny name rest := by
        rw [goesFirst.scope]
        exact readsOthers.of_locals_eq computed.locals
      apply Ir.Machine.Simulates.bind (evaluates_lowerEach answers rest proper.2 second grows
        callers globals world computed.stands stillReads)
      rintro results world _ ⟨later, globals, rfl, computedOthers⟩
      exact .ok ⟨later, globals, rfl,
        .cons computed computedOthers goesFirst.grows goesOthers.grows⟩

end

end YulLowering.Lowering
