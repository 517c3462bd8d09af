import YulLowering.Lowering.Expressions

/-!
# Lowering statements

Structured control flow becomes blocks joined by edges. Each construct makes the blocks it needs,
closes the current one with an edge to them, and leaves the cursor on the block where control goes
on. Where a statement follows one that has left the block, it goes to a block of its own that
control cannot reach.
-/

namespace YulLowering.Lowering

/-- Add a labelled block. -/
def newBlock (label : String) : Step Ir.BlockId :=
  Step.write fun draft => draft.newBlock label

/-- Make sure that the next instruction has an open block to go to. -/
def openBlock : Step Unit := do
  if ← Step.inspect fun state => state.draft.isClosed then
    let block ← newBlock "unreachable"
    Step.modify fun draft => draft.moveTo block

/-- Leave an iteration of the innermost loop. -/
def leaveIteration (exit : LoopExit) : Step Unit := do
  let loops ← Step.inspect State.loops
  let target ← Step.ofExcept (loops.target exit)
  Step.modify fun draft => draft.jump target

/-- Declare variables, each as soon as its type is known. -/
def declareAll (context : Context) : List TypedName → Step (List Binding)
  | [] => pure []
  | ⟨name, typeName⟩ :: rest => do
    let type ← Step.ofExcept (context.types.resolve typeName)
    let slot ← Step.declare name type
    let bindings ← declareAll context rest
    pure (⟨name, slot, type⟩ :: bindings)

/-- Read the second and later results of a call from the spill slots into variables. `index` is the
spill slot of the first of them. -/
def unspill (index : Nat) : List Binding → Step Unit
  | [] => pure ()
  | target :: rest => do
    let slot ← Step.spill index
    let value ← Step.write fun draft => draft.load (.ofGlobal slot) target.type
    Step.modify fun draft => draft.store (.ofLocal target.slot) value
    unspill (index + 1) rest

/-- Assign the results of a call to several variables, by position. -/
def assignResults (context : Context) (first : Binding) (others : List Binding) (callee : String)
    (arguments : List Expression) : Step Unit := do
  let target ← Step.ofExcept (context.resolveCall callee)
  let count := others.length + 1
  if target.resultCount ≠ count then
    throw (.arity count target.resultCount)
  Step.reserveSpills (count - 1)
  let outcome ← target.invoke context arguments
  match outcome.first with
  | none => throw (.arity count 0)
  | some value =>
    Step.modify fun draft => draft.store (.ofLocal first.slot) value
    unspill 0 others

/-- Assign the value or values of an expression to variables. Only a call has several values. -/
def assign (context : Context) (targets : List Binding) (value : Expression) : Step Unit :=
  match targets, value with
  | [], _ => throw (.arity 0 1)
  | [target], value => do
    let result ← value.lower context
    Step.modify fun draft => draft.store (.ofLocal target.slot) result
  | first :: others, .call callee arguments =>
    assignResults context first others callee arguments
  | targets, _ => throw (.arity targets.length 1)

/-- The blocks that a switch leads to. -/
structure SwitchBlocks where
  /-- The block of each case, in source order, the default among them. -/
  arms : List Ir.BlockId
  /-- The constants and their blocks. -/
  constants : List (Nat × Ir.BlockId)
  /-- The block of the last default arm. -/
  default : Option Ir.BlockId
deriving DecidableEq, Repr, Inhabited

/-- Make a block for each case of a switch. A case's value has to fit the scrutinee. -/
def newArms (scrutinee : Ir.Value) : List Case → Step SwitchBlocks
  | [] => pure ⟨[], [], none⟩
  | ⟨some literal, _⟩ :: rest => do
    let block ← newBlock "switch.case"
    let constant ← Step.ofExcept (literal.valueAt scrutinee.type)
    let blocks ← newArms scrutinee rest
    pure { blocks with
      arms := block :: blocks.arms, constants := (constant, block) :: blocks.constants }
  | ⟨none, _⟩ :: rest => do
    let block ← newBlock "switch.default"
    let blocks ← newArms scrutinee rest
    pure { blocks with
      arms := block :: blocks.arms, default := some (blocks.default.getD block) }

end YulLowering.Lowering

namespace YulLowering

open Lowering

mutual

/-- Lower a statement at the cursor. -/
def Statement.lower (context : Context) : Statement → Step Unit
  | .block body => Step.inBlock (Statement.lowerEach context body)
  | .declaration declared initialiser => do
    let targets ← declareAll context declared
    match initialiser with
    | some value => assign context targets value
    | none => pure ()
  | .assignment names value => do
    let targets ← names.mapM Step.lookup
    assign context targets value
  | .expression expression => expression.perform context
  | .conditional condition body => do
    let condition ← condition.lowerToCondition context
    let onTrue ← newBlock "if.then"
    let done ← newBlock "if.end"
    Step.modify fun draft => (draft.close (.branch condition onTrue done)).moveTo onTrue
    Step.inBlock (Statement.lowerEach context body)
    Step.modify fun draft => (draft.fallThrough done).moveTo done
  | .switch scrutinee cases => do
    let scrutinee ← scrutinee.lower context
    let done ← newBlock "switch.end"
    let blocks ← newArms scrutinee cases
    Step.modify fun draft =>
      draft.close (.switch scrutinee blocks.constants (blocks.default.getD done))
    Case.lowerEach context done cases blocks.arms
    Step.modify fun draft => draft.moveTo done
  | .loop init condition step body => do
    let initBlock ← newBlock "for.init"
    Step.modify fun draft => (draft.jump initBlock).moveTo initBlock
    Step.inBlock do
      Statement.lowerEach context init
      let conditionBlock ← newBlock "for.cond"
      let bodyBlock ← newBlock "for.body"
      let stepBlock ← newBlock "for.post"
      let done ← newBlock "for.exit"
      Step.modify fun draft => (draft.fallThrough conditionBlock).moveTo conditionBlock
      let condition ← condition.lowerToCondition context
      Step.modify fun draft =>
        (draft.close (.branch condition bodyBlock done)).moveTo bodyBlock
      Step.inLoop ⟨done, stepBlock⟩ (Step.inBlock (Statement.lowerEach context body))
      Step.modify fun draft => (draft.fallThrough stepBlock).moveTo stepBlock
      Step.inBlock (Statement.lowerEach context step)
      Step.modify fun draft => (draft.fallThrough conditionBlock).moveTo done
  | .breakLoop => leaveIteration .breakLoop
  | .continueLoop => leaveIteration .continueLoop
  | .definition name _ _ _ => throw (.nestedDefinition name)
  | .label _ => throw (.unsupported (.statement .label))
  | .stackAssignment _ => throw (.unsupported (.statement .stackAssignment))

/-- Lower statements in order, each where control can go on. -/
def Statement.lowerEach (context : Context) : List Statement → Step Unit
  | [] => pure ()
  | statement :: rest => do
    openBlock
    statement.lower context
    Statement.lowerEach context rest

/-- Lower the bodies of a switch into their blocks, each going on at `done`. -/
def Case.lowerEach (context : Context) (done : Ir.BlockId) : List Case → List Ir.BlockId → Step Unit
  | ⟨_, body⟩ :: cases, block :: blocks => do
    Step.modify fun draft => draft.moveTo block
    Step.inBlock (Statement.lowerEach context body)
    Step.modify fun draft => draft.fallThrough done
    Case.lowerEach context done cases blocks
  | _, _ => pure ()

end

end YulLowering
