import YulLowering.Lowering.Programs

/-!
# Faults that a program brings about itself

What can go wrong in a step of a lowering follows from how the step is put together. A program brings about a
type that is unknown by writing its name. It has no part in how the builtins of the dialect are described.
-/

namespace YulLowering

open Lowering

/-! ## The type names that are written in a program -/

mutual

/-- The type names in an expression: those of its literals. -/
def Expression.typeNames : Expression → List String
  | .identifier _ => []
  | .literal written => [written.typeName]
  | .call _ arguments => Expression.typeNamesOfEach arguments
  | .instructionCall _ arguments => Expression.typeNamesOfEach arguments
  | .instruction _ => []

/-- The type names in several expressions. -/
def Expression.typeNamesOfEach : List Expression → List String
  | [] => []
  | argument :: rest => argument.typeNames ++ Expression.typeNamesOfEach rest

end

mutual

/-- The type names in a statement. -/
def Statement.typeNames : Statement → List String
  | .block body => Statement.typeNamesOfEach body
  | .declaration declared none => declared.map TypedName.typeName
  | .declaration declared (some value) => declared.map TypedName.typeName ++ value.typeNames
  | .assignment _ value => value.typeNames
  | .expression expression => expression.typeNames
  | .conditional condition body => condition.typeNames ++ Statement.typeNamesOfEach body
  | .switch scrutinee cases => scrutinee.typeNames ++ Case.typeNamesOfEach cases
  | .loop init condition step body =>
    Statement.typeNamesOfEach init ++ condition.typeNames ++ Statement.typeNamesOfEach step ++
      Statement.typeNamesOfEach body
  | .breakLoop => []
  | .continueLoop => []
  | .definition _ parameters returns body =>
    parameters.map TypedName.typeName ++ returns.map TypedName.typeName ++
      Statement.typeNamesOfEach body
  | .label _ => []
  | .stackAssignment _ => []

/-- The type names in several statements. -/
def Statement.typeNamesOfEach : List Statement → List String
  | [] => []
  | statement :: rest => statement.typeNames ++ Statement.typeNamesOfEach rest

/-- The type names in the arms of a switch, those of its constants among them. -/
def Case.typeNamesOfEach : List Case → List String
  | [] => []
  | ⟨value, body⟩ :: rest =>
    value.toList.map Literal.typeName ++ Statement.typeNamesOfEach body ++ Case.typeNamesOfEach rest

end

/-- The type names in a program. -/
def Block.typeNames (program : Block) : List String :=
  Statement.typeNamesOfEach program

namespace Lowering

/-- Faults that a program with given type names brings about itself. -/
def Fault.Own (names : List String) : Fault → Prop
  | .unknownType name => name ≠ "" ∧ name ∈ names
  | .unsupported (.severalResults _ _) => False
  | _ => True

/-! ## What fails only for some reasons -/

/-- What fails does so only for reasons of a kind. -/
structure FailsOnly {ε α : Type} (outcome : Except ε α) (kind : ε → Prop) : Prop where
  holds : ∀ error, outcome = .error error → kind error

namespace FailsOnly

variable {ε α β : Type} {kind : ε → Prop}

theorem ok (result : α) : FailsOnly (.ok result) kind :=
  ⟨fun _ failed => nomatch failed⟩

theorem error {reason : ε} (holds : kind reason) : FailsOnly (.error reason : Except ε α) kind := by
  constructor
  rintro _ ⟨⟩
  exact holds

theorem bind {outcome : Except ε α} {next : α → Except ε β} (first : FailsOnly outcome kind)
    (second : ∀ result, outcome = .ok result → FailsOnly (next result) kind) :
    FailsOnly (outcome >>= next) kind := by
  cases outcome with
  | error reason => exact error (first.holds reason rfl)
  | ok result => exact second result rfl

/-- What is said of where a fault was met does not change what the fault is. -/
theorem within {kind : Fault → Prop} {outcome : Except Fault α} (function : String)
    (fails : FailsOnly outcome kind) :
    FailsOnly (Lowering.within function outcome) fun error => kind error.fault := by
  cases outcome with
  | error fault => exact error (fails.holds fault rfl)
  | ok result => exact ok result

end FailsOnly

namespace Step

/-- A step that fails does so only for reasons of a kind, from whatever state it is taken. -/
structure FailsOnly {α : Type} (step : Step α) (kind : Fault → Prop) : Prop where
  after : ∀ state, Lowering.FailsOnly (step.after state).1 kind

namespace FailsOnly

variable {α β : Type} {kind : Fault → Prop} {step : Step α}

theorem pure (result : α) : FailsOnly (Pure.pure result) kind :=
  ⟨fun _ => .ok result⟩

theorem throw {fault : Fault} (holds : kind fault) : FailsOnly (MonadExcept.throw fault : Step α) kind :=
  ⟨fun _ => .error holds⟩

theorem ofExcept {outcome : Except Fault α} (fails : Lowering.FailsOnly outcome kind) :
    FailsOnly (Step.ofExcept outcome) kind :=
  ⟨fun _ => fails⟩

theorem bind {next : α → Step β} (first : FailsOnly step kind)
    (second : ∀ result, FailsOnly (next result) kind) : FailsOnly (step >>= next) kind := by
  constructor
  intro state
  rw [Step.after_bind]
  have fails := first.after state
  cases taken : step.after state with
  | mk outcome later =>
      rw [taken] at fails
      cases outcome with
      | error fault => exact .error (fails.holds fault rfl)
      | ok result => exact (second result).after later

/-- What follows a step that does not depend on the state knows what that step has given. -/
theorem ofExcept_bind {outcome : Except Fault α} {next : α → Step β}
    (first : Lowering.FailsOnly outcome kind)
    (second : ∀ result, outcome = .ok result → FailsOnly (next result) kind) :
    FailsOnly (Step.ofExcept outcome >>= next) kind := by
  constructor
  intro state
  rw [Step.after_bind]
  cases outcome with
  | error fault => exact .error (first.holds fault rfl)
  | ok result => exact (second result rfl).after state

theorem inspect (look : State → α) : FailsOnly (Step.inspect look) kind :=
  ⟨fun state => .ok (look state)⟩

theorem write (edit : Ir.Draft → α × Ir.Draft) : FailsOnly (Step.write edit) kind :=
  ⟨fun state => .ok (edit state.draft).1⟩

theorem modify (edit : Ir.Draft → Ir.Draft) : FailsOnly (Step.modify edit) kind :=
  write _

theorem write_bind {edit : Ir.Draft → α × Ir.Draft} {next : α → Step β}
    (second : ∀ result, FailsOnly (next result) kind) : FailsOnly (Step.write edit >>= next) kind :=
  bind (write edit) second

theorem modify_bind {edit : Ir.Draft → Ir.Draft} {next : Unit → Step β}
    (second : FailsOnly (next ()) kind) : FailsOnly (Step.modify edit >>= next) kind :=
  bind (modify edit) fun _ => second

/-- What follows a step that fails is never reached. -/
theorem throw_bind {fault : Fault} {next : α → Step β} (holds : kind fault) :
    FailsOnly (MonadExcept.throw fault >>= next) kind :=
  ⟨fun _ => .error holds⟩

theorem inBlock (fails : FailsOnly step kind) : FailsOnly (Step.inBlock step) kind :=
  ⟨fun state => fails.after { state with scope := state.scope.enter }⟩

theorem inLoop (targets : LoopFrame) (fails : FailsOnly step kind) :
    FailsOnly (Step.inLoop targets step) kind :=
  ⟨fun state => fails.after { state with loops := state.loops.enter targets }⟩

theorem declare (name : String) (type : Ir.ValueType) : FailsOnly (Step.declare name type) kind :=
  ⟨fun _ => .ok _⟩

theorem reserveSpills (count : Nat) : FailsOnly (Step.reserveSpills count) kind :=
  ⟨fun _ => .ok _⟩

theorem declareExternal (external : Ir.External) : FailsOnly (Step.declareExternal external) kind :=
  ⟨fun _ => .ok _⟩

theorem lookup {name : String} (undeclared : kind (.undeclaredName name)) :
    FailsOnly (Step.lookup name) kind := by
  apply bind (inspect _)
  rintro (_ | binding)
  · exact throw undeclared
  · exact pure binding

theorem lookups {names : List String} (undeclared : ∀ name ∈ names, kind (.undeclaredName name)) :
    FailsOnly (names.mapM Step.lookup) kind := by
  induction names with
  | nil => exact pure []
  | cons name rest ih =>
      obtain ⟨head, tail⟩ := List.forall_mem_cons.mp undeclared
      rw [List.mapM_cons]
      apply bind (lookup head)
      intro binding
      apply bind (ih tail)
      intro bindings
      exact pure _

theorem spill {index : Nat} (missing : ∀ found, kind (.arity (index + 1) found)) :
    FailsOnly (Step.spill index) kind := by
  apply bind (inspect _)
  rintro (_ | slot)
  · apply bind (inspect _)
    intro found
    exact throw (missing found)
  · exact pure slot

end FailsOnly

end Step

end Lowering

end YulLowering
