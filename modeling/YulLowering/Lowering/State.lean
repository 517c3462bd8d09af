import YulLowering.Dialect
import YulLowering.Lowering.Loops
import YulLowering.Lowering.Scope
import YulLowering.Lowering.SpillSlots
import YulLowering.Lowering.TypeNames

/-!
# The state of a lowering

Lowering a function changes the function under construction, the visible declarations, the loops
around the current statement, the pool of spill slots and the module. A step gives back the state
that it leaves behind whether it succeeds or not, so that it can be said what a failed step has
touched.
-/

namespace YulLowering.Lowering

/-- A function of the program as its callers see it. -/
structure Signature where
  name : String
  id : Ir.FunctionId
  parameters : List Ir.ValueType
  results : List Ir.ValueType
deriving DecidableEq, Repr, Inhabited

namespace Signature

/-- The type of the direct result: that of the first return value, if there is one. -/
def resultType (signature : Signature) : Ir.ValueType :=
  signature.results.head?.getD .void

end Signature

/-- The functions of a program. A name means the last function that has it. -/
structure Signatures where
  all : List Signature
deriving DecidableEq, Repr, Inhabited

namespace Signatures

/-- No function at all. -/
def empty : Signatures :=
  ⟨[]⟩

/-- Add a function after those there are. -/
def add (signatures : Signatures) (signature : Signature) : Signatures :=
  ⟨signatures.all ++ [signature]⟩

/-- The last function with a name. -/
def lookup (signatures : Signatures) (name : String) : Option Signature :=
  signatures.all.reverse.find? fun signature => signature.name == name

end Signatures

/-- What stays the same while a program is lowered. -/
structure Context where
  dialect : Dialect
  types : TypeNames
  signatures : Signatures
deriving DecidableEq, Repr, Inhabited

/-- What changes while a function is lowered. -/
structure State where
  draft : Ir.Draft
  scope : Scope
  loops : Loops
  spills : SpillSlots
  module : Ir.Module
deriving DecidableEq, Repr, Inhabited

/-- Steps that change the state and may fail. The state is there in both cases. -/
abbrev Step := ExceptT Fault (StateM State)

namespace Step

/-- Take a step from a state. -/
def after {α : Type} (step : Step α) (state : State) : Except Fault α × State :=
  step.run.run state

/-- A step that fails or succeeds without touching the state. -/
def ofExcept {α : Type} (outcome : Except Fault α) : Step α :=
  fun state => (outcome, state)

/-- Two steps in a row: the second is taken where the first left the state, if the first
succeeds. -/
theorem after_bind {α β : Type} (step : Step α) (next : α → Step β) (state : State) :
    (step >>= next).after state =
      match step.after state with
      | (.ok result, state) => (next result).after state
      | (.error fault, state) => (.error fault, state) := by
  change (ExceptT.bindCont (m := StateM State) next (step state).1) (step state).2 = _
  unfold after ExceptT.run StateT.run
  cases step state with
  | mk outcome later => cases outcome <;> rfl

@[simp] theorem after_pure {α : Type} (result : α) (state : State) :
    (pure result : Step α).after state = (.ok result, state) := rfl

@[simp] theorem after_throw {α : Type} (fault : Fault) (state : State) :
    (throw fault : Step α).after state = (.error fault, state) := rfl

@[simp] theorem after_ofExcept {α : Type} (outcome : Except Fault α) (state : State) :
    (ofExcept outcome).after state = (outcome, state) := rfl

/-- Look something up in the state. -/
def inspect {α : Type} (look : State → α) : Step α :=
  fun state => (.ok (look state), state)

/-- Write to the function under construction. -/
def write {α : Type} (edit : Ir.Draft → α × Ir.Draft) : Step α :=
  fun state =>
    let (result, draft) := edit state.draft
    (.ok result, { state with draft := draft })

@[simp] theorem after_inspect {α : Type} (look : State → α) (state : State) :
    (inspect look).after state = (.ok (look state), state) := rfl

@[simp] theorem after_write {α : Type} (edit : Ir.Draft → α × Ir.Draft) (state : State) :
    (write edit).after state =
      (.ok (edit state.draft).1, { state with draft := (edit state.draft).2 }) := rfl

/-- Write to the function under construction where there is nothing to give back. -/
def modify (edit : Ir.Draft → Ir.Draft) : Step Unit :=
  write fun draft => ((), edit draft)

/-- Take a step in a block of its own. The block is closed whether the step succeeds or not. -/
def inBlock {α : Type} (step : Step α) : Step α :=
  fun state =>
    let (outcome, state) := step { state with scope := state.scope.enter }
    (outcome, { state with scope := state.scope.leave })

/-- Take a step inside a loop. The loop is left whether the step succeeds or not. -/
def inLoop {α : Type} (targets : LoopFrame) (step : Step α) : Step α :=
  fun state =>
    let (outcome, state) := step { state with loops := state.loops.enter targets }
    (outcome, { state with loops := state.loops.leave })

/-- A step in a block of its own ends with the block closed, however it ends. -/
@[simp] theorem after_inBlock {α : Type} (step : Step α) (state : State) :
    (inBlock step).after state =
      let (outcome, later) := step.after { state with scope := state.scope.enter }
      (outcome, { later with scope := later.scope.leave }) := rfl

/-- A step inside a loop ends with the loop left, however it ends. -/
@[simp] theorem after_inLoop {α : Type} (targets : LoopFrame) (step : Step α) (state : State) :
    (inLoop targets step).after state =
      let (outcome, later) := step.after { state with loops := state.loops.enter targets }
      (outcome, { later with loops := later.loops.leave }) := rfl

/-- Declare a variable. -/
def declare (name : String) (type : Ir.ValueType) : Step Ir.LocalId :=
  fun state =>
    let (slot, scope, draft) := state.scope.declare state.draft name type
    (.ok slot, { state with scope := scope, draft := draft })

/-- The visible declaration of a name. -/
def lookup (name : String) : Step Binding := do
  match ← inspect fun state => state.scope.lookup name with
  | some binding => pure binding
  | none => throw (.undeclaredName name)

/-- Have at least a number of spill slots. -/
def reserveSpills (count : Nat) : Step Unit :=
  fun state =>
    let (spills, module) := state.spills.reserve state.module count
    (.ok (), { state with spills := spills, module := module })

/-- The spill slot at a position. -/
def spill (index : Nat) : Step Ir.GlobalId := do
  match ← inspect fun state => state.spills.slot? index with
  | some slot => pure slot
  | none => throw (.arity (index + 1) (← inspect fun state => state.spills.size))

/-- Declare a builtin in the module unless its name is declared already. -/
def declareExternal (external : Ir.External) : Step Unit :=
  fun state =>
    let (_, module) := state.module.declare external
    (.ok (), { state with module := module })

end Step

end YulLowering.Lowering
