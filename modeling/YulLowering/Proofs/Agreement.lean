import YulLowering.Proofs.Calls
import YulLowering.Proofs.Meaning.Source
import YulLowering.Proofs.StatementRuns

/-!
# Steps that do the same from different states

Two lowerings can be compared step by step. Two steps agree under a relation between states if from
related states they have the same outcome, the same fault included, and end in related states. The rules
for putting steps together come first. Then an expression is lowered in two contexts: the two lowerings
agree under every relation that the edits which expressions make are congruent with.
-/

namespace YulLowering

/-- The function that an instruction calls, if it calls one. -/
def Ir.Instruction.function? : Instruction → Option FunctionId
  | call _ (.function id) _ => some id
  | _ => none

namespace Lowering

/-- The state after an instruction has been written. -/
def State.written (state : State) (instruction : Ir.Instruction) : State :=
  { state with draft := state.draft.write instruction }

namespace Step

/-- From related states, two steps have the same outcome and end in related states. -/
structure Agree {α : Type} (related : State → State → Prop) (first second : Step α) : Prop where
  holds : ∀ {state other}, related state other →
    (first.after state).1 = (second.after other).1 ∧
      related (first.after state).2 (second.after other).2

namespace Agree

variable {α β : Type} {related : State → State → Prop} {first second : Step α}

/-- Where two steps that agree end. -/
theorem after {state other later otherLater : State} {outcome otherOutcome : Except Fault α}
    (agree : Agree related first second) (holds : related state other)
    (taken : first.after state = (outcome, later))
    (otherTaken : second.after other = (otherOutcome, otherLater)) :
    outcome = otherOutcome ∧ related later otherLater := by
  have ends := agree.holds holds
  rwa [taken, otherTaken] at ends

theorem pure (result : α) : Agree related (Pure.pure result) (Pure.pure result) :=
  ⟨fun holds => ⟨rfl, holds⟩⟩

theorem ofExcept (outcome : Except Fault α) :
    Agree related (Step.ofExcept outcome) (Step.ofExcept outcome) :=
  ⟨fun holds => ⟨rfl, holds⟩⟩

theorem throw (fault : Fault) :
    Agree related (MonadExcept.throw fault : Step α) (MonadExcept.throw fault) :=
  ⟨fun holds => ⟨rfl, holds⟩⟩

/-- Two steps in a row. -/
theorem bind {next otherNext : α → Step β} (head : Agree related first second)
    (tail : ∀ result, Agree related (next result) (otherNext result)) :
    Agree related (first >>= next) (second >>= otherNext) := by
  constructor
  intro state other holds
  obtain ⟨outcome, ends⟩ := head.holds holds
  rw [after_bind, after_bind]
  cases taken : first.after state with
  | mk firstOutcome later =>
      cases otherTaken : second.after other with
      | mk secondOutcome otherLater =>
          rw [taken, otherTaken] at outcome ends
          obtain rfl : firstOutcome = secondOutcome := outcome
          cases firstOutcome with
          | error fault => exact ⟨rfl, ends⟩
          | ok result => exact (tail result).holds ends

theorem ofExcept_bind {outcome : Except Fault α} {next otherNext : α → Step β}
    (tail : ∀ result, outcome = .ok result → Agree related (next result) (otherNext result)) :
    Agree related (Step.ofExcept outcome >>= next) (Step.ofExcept outcome >>= otherNext) := by
  cases outcome with
  | error fault => exact ⟨fun holds => ⟨rfl, holds⟩⟩
  | ok result => exact ⟨fun holds => (tail result rfl).holds holds⟩

/-- What is looked up in the state is the same in related states. -/
theorem inspect {look otherLook : State → α}
    (same : ∀ {state other}, related state other → look state = otherLook other) :
    Agree related (Step.inspect look) (Step.inspect otherLook) :=
  ⟨fun holds => ⟨congrArg Except.ok (same holds), holds⟩⟩

theorem write {edit otherEdit : Ir.Draft → α × Ir.Draft}
    (edits : ∀ {state other}, related state other →
      (edit state.draft).1 = (otherEdit other.draft).1 ∧
        related { state with draft := (edit state.draft).2 }
          { other with draft := (otherEdit other.draft).2 }) :
    Agree related (Step.write edit) (Step.write otherEdit) :=
  ⟨fun holds => ⟨congrArg Except.ok (edits holds).1, (edits holds).2⟩⟩

theorem modify {edit otherEdit : Ir.Draft → Ir.Draft}
    (edits : ∀ {state other}, related state other →
      related { state with draft := edit state.draft } { other with draft := otherEdit other.draft }) :
    Agree related (Step.modify edit) (Step.modify otherEdit) :=
  write fun holds => ⟨rfl, edits holds⟩

/-- A step in a block of its own. -/
theorem inBlock (agree : Agree related first second)
    (enter : ∀ {state other}, related state other →
      related { state with scope := state.scope.enter } { other with scope := other.scope.enter })
    (leave : ∀ {state other}, related state other →
      related { state with scope := state.scope.leave } { other with scope := other.scope.leave }) :
    Agree related (Step.inBlock first) (Step.inBlock second) := by
  constructor
  intro state other holds
  obtain ⟨outcome, ends⟩ := agree.holds (enter holds)
  exact ⟨outcome, leave ends⟩

/-- A step inside a loop. -/
theorem inLoop {targets : LoopFrame} (agree : Agree related first second)
    (enter : ∀ {state other}, related state other →
      related { state with loops := state.loops.enter targets }
        { other with loops := other.loops.enter targets })
    (leave : ∀ {state other}, related state other →
      related { state with loops := state.loops.leave } { other with loops := other.loops.leave }) :
    Agree related (Step.inLoop targets first) (Step.inLoop targets second) := by
  constructor
  intro state other holds
  obtain ⟨outcome, ends⟩ := agree.holds (enter holds)
  exact ⟨outcome, leave ends⟩

/-- A name has one meaning in related states. -/
theorem lookup {name : String}
    (same : ∀ {state other}, related state other →
      state.scope.lookup name = other.scope.lookup name) :
    Agree related (Step.lookup name) (Step.lookup name) := by
  rw [Step.lookup]
  have looks : Agree related (Step.inspect fun state => state.scope.lookup name)
      (Step.inspect fun state => state.scope.lookup name) := inspect same
  apply bind looks
  intro found
  cases found with
  | none => exact throw _
  | some binding => exact pure binding

/-- Steps that agree from where a first step ends on, where that may be a stronger relation. -/
theorem bind_of_after {stronger : State → State → Prop} {result : α} {next otherNext : α → Step β}
    (head : ∀ {state other}, related state other →
      ∃ later otherLater, first.after state = (.ok result, later) ∧
        second.after other = (.ok result, otherLater) ∧ stronger later otherLater)
    (weaken : ∀ {state other}, stronger state other → related state other)
    (tail : Agree stronger (next result) (otherNext result)) :
    Agree related (first >>= next) (second >>= otherNext) := by
  constructor
  intro state other holds
  obtain ⟨later, otherLater, taken, otherTaken, ends⟩ := head holds
  rw [after_bind, after_bind, taken, otherTaken]
  exact (tail.holds ends).imp_right weaken

end Agree

end Step

/-! ## Relations that edits are congruent with -/

/-- How a called name is resolved in two contexts: to the same builtin, or to functions whose calls are
alike. -/
inductive Resolutions (related : Nat → State → State → Prop) :
    Except Fault Target → Except Fault Target → Prop where
  | fault (fault : Fault) : Resolutions related (.error fault) (.error fault)
  | builtin (builtin : Builtin) : Resolutions related (.ok (.builtin builtin)) (.ok (.builtin builtin))
  | function {signature other : Signature} (results : signature.results = other.results)
      (calls : ∀ {count state later} dest arguments, related count state later →
        related count (state.written (.call dest (.function signature.id) arguments))
          (later.written (.call dest (.function other.id) arguments))) :
      Resolutions related (.ok (.function signature)) (.ok (.function other))

/-- A relation between the states of two lowerings that lasts while both lower one expression, if the
variables that it mentions and the names that it calls are among given ones. The relation also tells how
many spill slots there are at least. -/
structure Congruence (first second : Context) (mentioned called : String → Prop)
    (related : Nat → State → State → Prop) : Prop where
  types : first.types = second.types
  resolved : ∀ name, called name →
    Resolutions related (first.resolveCall name) (second.resolveCall name)
  lookup : ∀ {count state other name}, related count state other → mentioned name →
    state.scope.lookup name = other.scope.lookup name
  supply : ∀ {count state other}, related count state other →
    state.draft.function.valueSupply = other.draft.function.valueSupply
  write : ∀ {count state other} instruction, related count state other →
    instruction.function? = none → related count (state.written instruction) (other.written instruction)
  imported : ∀ {count state other} external, related count state other →
    related count (state.imported external) (other.imported external)
  weaken : ∀ {count fewer state other}, related count state other → fewer ≤ count →
    related fewer state other
  reserved : ∀ {count state other} more, related count state other →
    related (max count more) (state.reserved more) (other.reserved more)
  spill : ∀ {count state other index}, related count state other → index < count →
    ∃ slot, state.spills.slots[index]? = some slot ∧ other.spills.slots[index]? = some slot

namespace Congruence

variable {first second : Context} {mentioned called : String → Prop}
  {related : Nat → State → State → Prop} {count : Nat}

/-- An instruction whose result takes the next number. -/
theorem writes (congruence : Congruence first second mentioned called related) {α : Type}
    {edit : Ir.Draft → α × Ir.Draft} (result : Nat → α) (instruction : Nat → Ir.Instruction)
    (edits : ∀ draft, edit draft =
      (result draft.function.valueSupply, draft.write (instruction draft.function.valueSupply)))
    (plain : ∀ supply, (instruction supply).function? = none) :
    Step.Agree (related count) (Step.write edit) (Step.write edit) := by
  apply Step.Agree.write
  intro state other holds
  rw [edits, edits, congruence.supply holds]
  exact ⟨rfl, congruence.write _ holds (plain _)⟩

theorem stores (congruence : Congruence first second mentioned called related) (slot : Ir.Slot)
    (value : Ir.Value) :
    Step.Agree (related count) (Step.modify fun draft => draft.store slot value)
      (Step.modify fun draft => draft.store slot value) :=
  congruence.writes (fun _ => ()) (fun _ => .store slot value) (fun _ => rfl) fun _ => rfl

theorem loads (congruence : Congruence first second mentioned called related) (slot : Ir.Slot)
    (type : Ir.ValueType) :
    Step.Agree (related count) (Step.write fun draft => draft.load slot type)
      (Step.write fun draft => draft.load slot type) :=
  congruence.writes (fun supply => ⟨⟨supply⟩, type⟩) (fun supply => .load ⟨⟨supply⟩, type⟩ slot)
    (fun _ => rfl) fun _ => rfl

theorem consts (congruence : Congruence first second mentioned called related) (type : Ir.ValueType)
    (constant : Nat) :
    Step.Agree (related count) (Step.write fun draft => draft.const type constant)
      (Step.write fun draft => draft.const type constant) :=
  congruence.writes (fun supply => ⟨⟨supply⟩, type⟩) (fun supply => .const ⟨⟨supply⟩, type⟩ constant)
    (fun _ => rfl) fun _ => rfl

/-! ### Expressions -/

theorem literal (congruence : Congruence first second mentioned called related) (literal : Literal) :
    Step.Agree (related count) (literal.lower first) (literal.lower second) := by
  have sameType : first.literalType literal = second.literalType literal := by
    rw [Context.literalType, Context.literalType, congruence.types]
  rw [Literal.lower, Literal.lower, sameType]
  apply Step.Agree.ofExcept_bind
  intro type _
  apply Step.Agree.ofExcept_bind
  intro constant _
  exact congruence.consts type constant

theorem literals (congruence : Congruence first second mentioned called related) (builtin : String)
    (arguments : List Expression) (index : Nat) :
    Step.Agree (related count) (Expression.lowerLiterals first builtin index arguments)
      (Expression.lowerLiterals second builtin index arguments) := by
  induction arguments generalizing index with
  | nil => exact .pure []
  | cons argument rest ih =>
      cases argument with
      | literal written =>
          apply Step.Agree.bind (congruence.literal written)
          intro value
          apply Step.Agree.bind (ih (index + 1))
          intro values
          exact .pure _
      | identifier | call | instructionCall | instruction => exact .throw _

/-- Calls of functions whose results have the same types, and whose instructions are related. -/
theorem signature_write (congruence : Congruence first second mentioned called related)
    {signature other : Signature} (results : signature.results = other.results)
    (calls : ∀ {count state later} dest arguments, related count state later →
      related count (state.written (.call dest (.function signature.id) arguments))
        (later.written (.call dest (.function other.id) arguments)))
    (values : List Ir.Value) :
    Step.Agree (related count) (signature.write values) (other.write values) := by
  have type : signature.resultType = other.resultType := by
    rw [Signature.resultType, Signature.resultType, results]
  rw [Signature.write, Signature.write, type, results]
  apply Step.Agree.bind
  · apply Step.Agree.write
    intro state later holds
    have result : state.draft.callResult other.resultType = later.draft.callResult other.resultType := by
      rw [Ir.Draft.callResult, Ir.Draft.callResult, Ir.Draft.next, Ir.Draft.next,
        congruence.supply holds]
    rw [Ir.Draft.call_eq, Ir.Draft.call_eq, result]
    exact ⟨rfl, calls _ values holds⟩
  · intro result
    exact .pure _

theorem external_write (congruence : Congruence first second mentioned called related)
    (external : Ir.External) (values : List Ir.Value) :
    Step.Agree (related count) (writeExternal external values) (writeExternal external values) := by
  have imports : Step.Agree (related count) (Step.declareExternal external)
      (Step.declareExternal external) :=
    ⟨fun holds => ⟨rfl, congruence.imported external holds⟩⟩
  apply Step.Agree.bind imports
  rintro ⟨⟩
  apply Step.Agree.bind
  · apply Step.Agree.write
    intro state later holds
    have result (type : Ir.ValueType) : state.draft.callResult type = later.draft.callResult type := by
      rw [Ir.Draft.callResult, Ir.Draft.callResult, Ir.Draft.next, Ir.Draft.next,
        congruence.supply holds]
    rw [Ir.Draft.call_eq, Ir.Draft.call_eq, result]
    exact ⟨rfl, congruence.write _ holds rfl⟩
  · intro result
    exact .pure _

/-- A call whose arguments are lowered alike. -/
theorem invokeWith (congruence : Congruence first second mentioned called related)
    {target other : Target} (resolutions : Resolutions related (.ok target) (.ok other))
    (arguments : List Expression) {evaluate otherEvaluate : Step (List Ir.Value)}
    (evaluates : Step.Agree (related count) evaluate otherEvaluate) :
    Step.Agree (related count) (target.invokeWith first arguments evaluate)
      (other.invokeWith second arguments otherEvaluate) := by
  cases resolutions with
  | function results calls =>
      apply Step.Agree.bind evaluates
      intro values
      exact congruence.signature_write results calls values
  | builtin builtin =>
      have sameExternal : first.external builtin = second.external builtin := by
        rw [Context.external, Context.external, congruence.types]
      rw [Target.invokeWith, Target.invokeWith, sameExternal]
      apply Step.Agree.ofExcept_bind
      intro external _
      dsimp only
      split
      · apply Step.Agree.bind (congruence.literals builtin.name arguments 0)
        intro values
        exact congruence.external_write external values
      · apply Step.Agree.bind evaluates
        intro values
        exact congruence.external_write external values

/-- Where a called name is resolved, the two lowerings go on with targets that are alike. -/
theorem resolve_bind (congruence : Congruence first second mentioned called related) {name : String}
    (isCalled : called name) {α : Type} {next otherNext : Target → Step α}
    (tail : ∀ target other, Resolutions related (.ok target) (.ok other) →
      Step.Agree (related count) (next target) (otherNext other)) :
    Step.Agree (related count) (Step.ofExcept (first.resolveCall name) >>= next)
      (Step.ofExcept (second.resolveCall name) >>= otherNext) := by
  have resolutions := congruence.resolved name isCalled
  cases resolved : first.resolveCall name with
  | error fault =>
      rw [resolved] at resolutions
      cases otherResolved : second.resolveCall name with
      | error other =>
          rw [otherResolved] at resolutions
          cases resolutions
          exact ⟨fun holds => ⟨rfl, holds⟩⟩
      | ok other =>
          rw [otherResolved] at resolutions
          cases resolutions
  | ok target =>
      rw [resolved] at resolutions
      cases otherResolved : second.resolveCall name with
      | error other =>
          rw [otherResolved] at resolutions
          cases resolutions
      | ok other =>
          rw [otherResolved] at resolutions
          exact ⟨fun holds => (tail target other resolutions).holds holds⟩

mutual

/-- An expression is lowered alike where the variables that it mentions and the names that it calls
are. -/
theorem expression (congruence : Congruence first second mentioned called related) :
    (expression : Expression) → (∀ name, expression.mentions name = true → mentioned name) →
    (∀ name ∈ expression.calls, called name) →
    Step.Agree (related count) (expression.lower first) (expression.lower second)
  | .identifier name, mentions, _ => by
      rw [Expression.lower, Expression.lower]
      have isMentioned : mentioned name := mentions name (by simp [Expression.mentions])
      apply Step.Agree.bind (.lookup fun holds => congruence.lookup holds isMentioned)
      intro binding
      exact congruence.loads _ _
  | .literal literal, _, _ => by
      rw [Expression.lower, Expression.lower]
      exact congruence.literal literal
  | .call callee arguments, mentions, calls => by
      rw [Expression.calls, List.forall_mem_append] at calls
      rw [Expression.lower, Expression.lower]
      apply congruence.resolve_bind (calls.2 callee (List.mem_singleton_self _))
      intro target other resolutions
      apply Step.Agree.bind (congruence.invokeWith resolutions arguments
        (congruence.expressions arguments (fun name isMentioned => mentions name isMentioned) calls.1))
      intro outcome
      exact .ofExcept _
  | .instructionCall mnemonic _, _, _ => by
      rw [Expression.lower, Expression.lower]
      exact .throw _
  | .instruction mnemonic, _, _ => by
      rw [Expression.lower, Expression.lower]
      exact .throw _

theorem expressions (congruence : Congruence first second mentioned called related) :
    (arguments : List Expression) →
    (∀ name, Expression.mentionsAny name arguments = true → mentioned name) →
    (∀ name ∈ Expression.callsOfEach arguments, called name) →
    Step.Agree (related count) (Expression.lowerEach first arguments)
      (Expression.lowerEach second arguments)
  | [], _, _ => by
      rw [Expression.lowerEach, Expression.lowerEach]
      exact .pure []
  | argument :: rest, mentions, calls => by
      rw [Expression.callsOfEach, List.forall_mem_append] at calls
      rw [Expression.lowerEach, Expression.lowerEach]
      apply Step.Agree.bind (congruence.expression argument
        (fun name isMentioned => mentions name (by simp [Expression.mentionsAny, isMentioned])) calls.1)
      intro value
      apply Step.Agree.bind (congruence.expressions rest
        (fun name isMentioned => mentions name (by simp [Expression.mentionsAny, isMentioned])) calls.2)
      intro values
      exact .pure _

end

theorem condition (congruence : Congruence first second mentioned called related)
    (expression : Expression) (mentions : ∀ name, expression.mentions name = true → mentioned name)
    (calls : ∀ name ∈ expression.calls, called name) :
    Step.Agree (related count) (expression.lowerToCondition first)
      (expression.lowerToCondition second) := by
  apply Step.Agree.bind (congruence.expression expression mentions calls)
  intro value
  cases isBool : value.type.isBool with
  | true =>
      apply Step.Agree.write
      intro state other holds
      rw [Ir.Draft.toCondition, Ir.Draft.toCondition, if_pos isBool, if_pos isBool]
      exact ⟨rfl, holds⟩
  | false =>
      exact congruence.writes (fun supply => ⟨⟨supply⟩, .bool⟩)
        (fun supply => .testNonZero ⟨⟨supply⟩, .bool⟩ value)
        (fun draft => Ir.Draft.toCondition_eq draft value isBool) fun _ => rfl

theorem perform (congruence : Congruence first second mentioned called related)
    (expression : Expression) (mentions : ∀ name, expression.mentions name = true → mentioned name)
    (calls : ∀ name ∈ expression.calls, called name) :
    Step.Agree (related count) (expression.perform first) (expression.perform second) := by
  have evaluates : Step.Agree (related count) (expression.lower first) (expression.lower second) :=
    congruence.expression expression mentions calls
  cases expression with
  | call callee arguments =>
      rw [Expression.calls, List.forall_mem_append] at calls
      apply congruence.resolve_bind (calls.2 callee (List.mem_singleton_self _))
      intro target other resolutions
      apply Step.Agree.bind (congruence.invokeWith resolutions arguments
        (congruence.expressions arguments (fun name isMentioned => mentions name isMentioned) calls.1))
      intro outcome
      exact .pure ()
  | identifier | literal | instructionCall | instruction =>
      apply Step.Agree.bind evaluates
      intro value
      exact .pure ()

/-! ### Assignments -/

/-- A spill slot that is known to be there is the same in related states. -/
theorem spills (congruence : Congruence first second mentioned called related) {index : Nat}
    (bound : index < count) :
    Step.Agree (related count) (Step.spill index) (Step.spill index) := by
  constructor
  intro state other holds
  obtain ⟨slot, found, otherFound⟩ := congruence.spill holds bound
  rw [after_spill found, after_spill otherFound]
  exact ⟨rfl, holds⟩

theorem unspills (congruence : Congruence first second mentioned called related)
    (targets : List Binding) (index : Nat) (enough : index + targets.length ≤ count) :
    Step.Agree (related count) (unspill index targets) (unspill index targets) := by
  induction targets generalizing index with
  | nil => exact .pure ()
  | cons target rest ih =>
      -- Spill slots are reserved before the call, so the bound says that those read here are there.
      rw [List.length_cons] at enough
      apply Step.Agree.bind (congruence.spills (by omega))
      intro slot
      apply Step.Agree.bind (congruence.loads _ _)
      intro value
      apply Step.Agree.bind (congruence.stores _ _)
      rintro ⟨⟩
      exact ih (index + 1) (by omega)

theorem reserve_bind (congruence : Congruence first second mentioned called related) {α : Type}
    (more : Nat) {next otherNext : Unit → Step α}
    (tail : Step.Agree (related (max count more)) (next ()) (otherNext ())) :
    Step.Agree (related count) (Step.reserveSpills more >>= next)
      (Step.reserveSpills more >>= otherNext) :=
  .bind_of_after (fun holds => ⟨_, _, rfl, rfl, congruence.reserved more holds⟩)
    (fun holds => congruence.weaken holds (Nat.le_max_left _ _)) tail

theorem resultCount_eq {target other : Target}
    (resolutions : Resolutions related (.ok target) (.ok other)) :
    target.resultCount = other.resultCount := by
  cases resolutions with
  | builtin => rfl
  | function results => exact congrArg List.length results

theorem assignResults_agree (congruence : Congruence first second mentioned called related)
    (target : Binding) (others : List Binding) (callee : String) (arguments : List Expression)
    (mentions : ∀ name, Expression.mentionsAny name arguments = true → mentioned name)
    (isCalled : called callee) (calls : ∀ name ∈ Expression.callsOfEach arguments, called name) :
    Step.Agree (related count) (assignResults first target others callee arguments)
      (assignResults second target others callee arguments) := by
  rw [assignResults, assignResults]
  apply congruence.resolve_bind isCalled
  intro callable other resolutions
  rw [resultCount_eq resolutions]
  dsimp only
  split
  · exact .throw _
  · apply congruence.reserve_bind
    apply Step.Agree.bind (congruence.invokeWith resolutions arguments
      (congruence.expressions arguments mentions calls))
    intro outcome
    cases outcome.first with
    | none => exact .throw _
    | some value =>
        apply Step.Agree.bind (congruence.stores _ _)
        rintro ⟨⟩
        exact congruence.unspills others 0 (by omega)

/-- Variables are given the values of an expression alike. -/
theorem assign_agree (congruence : Congruence first second mentioned called related)
    (targets : List Binding) (value : Expression)
    (mentions : ∀ name, value.mentions name = true → mentioned name)
    (calls : ∀ name ∈ value.calls, called name) :
    Step.Agree (related count) (assign first targets value) (assign second targets value) := by
  unfold assign
  split
  · exact .throw _
  · next target =>
      apply Step.Agree.bind (congruence.expression value mentions calls)
      intro result
      exact congruence.stores _ _
  · next target others callee arguments _ =>
      rw [Expression.calls, List.forall_mem_append] at calls
      exact congruence.assignResults_agree target others callee arguments
        (fun name isMentioned => mentions name isMentioned)
        (calls.2 callee (List.mem_singleton_self _)) calls.1
  · exact .throw _

end Congruence

end Lowering

end YulLowering
