import YulLowering.Dialect.Ethereum
import YulLowering.Lowering.Statements

/-!
# Lowering programs

A program is a block of function definitions. All signatures are known before the first body is
lowered, so a call may name a function that is defined further down. Parameters are copied into
slots, return variables start at zero, and the values of the return variables are handed over when
control reaches the end of the body: the first as the direct result, the others in spill slots.
-/

namespace YulLowering.Lowering

/-- The module name of a program for which none is chosen. -/
def standardModuleName : String := "yul"

/-- Report a fault together with the function it was met in. -/
def within {α : Type} (function : String) (outcome : Except Fault α) : Except Error α :=
  outcome.mapError fun fault => ⟨some function, fault⟩

/-- Copy parameters into slots. -/
def bindParameters : List TypedName → List Ir.Value → Step Unit
  | ⟨name, _⟩ :: names, value :: values => do
    let slot ← Step.declare name value.type
    Step.modify fun draft => draft.store (.ofLocal slot) value
    bindParameters names values
  | _, _ => pure ()

/-- Make slots for return variables and set them to zero. -/
def bindReturns : List TypedName → List Ir.ValueType → Step (List Binding)
  | ⟨name, _⟩ :: names, type :: types => do
    let slot ← Step.declare name type
    let zero ← Step.write fun draft => draft.const type 0
    Step.modify fun draft => draft.store (.ofLocal slot) zero
    let bindings ← bindReturns names types
    pure (⟨name, slot, type⟩ :: bindings)
  | _, _ => pure []

/-- Write the second and later return values to the spill slots. `index` is the spill slot of the
first of them. -/
def spillReturns (index : Nat) : List Binding → Step Unit
  | [] => pure ()
  | source :: rest => do
    let value ← Step.write fun draft => draft.load (.ofLocal source.slot) source.type
    let slot ← Step.spill index
    Step.modify fun draft => draft.store (.ofGlobal slot) value
    spillReturns (index + 1) rest

/-- Return from a function with the values of its return variables. -/
def returnValues : List Binding → Step Unit
  | [] => Step.modify fun draft => draft.close (.ret none)
  | first :: others => do
    Step.reserveSpills others.length
    let value ← Step.write fun draft => draft.load (.ofLocal first.slot) first.type
    spillReturns 0 others
    Step.modify fun draft => draft.close (.ret (some value))

/-- What the functions of one program share: the module and the pool of spill slots. -/
structure Progress where
  spills : SpillSlots
  module : Ir.Module
deriving DecidableEq, Repr, Inhabited

/-- The state in which the lowering of a function starts. -/
def Progress.begin (progress : Progress) (name : String) (signature : Signature) : State where
  draft := .start (.create name signature.parameters signature.resultType signature.results.length)
  scope := .empty
  loops := .empty
  spills := progress.spills
  module := progress.module

end YulLowering.Lowering

namespace YulLowering

open Lowering

namespace Definition

/-- The signature of a definition. -/
def signature (types : TypeNames) (id : Ir.FunctionId) (definition : Definition) :
    Except Fault Signature := do
  let parameters ← types.resolveAll (definition.parameters.map TypedName.typeName)
  let results ← types.resolveAll (definition.returns.map TypedName.typeName)
  pure ⟨definition.name, id, parameters, results⟩

/-- Collect the signatures of definitions. The first of them has the number of functions there are
already. -/
def signatures (types : TypeNames) (known : Signatures) :
    List Definition → Except Error Signatures
  | [] => .ok known
  | definition :: rest => do
    let signature ←
      within definition.name (definition.signature types ⟨known.all.length⟩)
    signatures types (known.add signature) rest

/-- Write the body of a function whose draft is fresh. -/
def writeBody (context : Context) (definition : Definition) (signature : Signature) :
    Step Unit := do
  let parameters ← Step.inspect fun state => state.draft.function.parameters
  bindParameters definition.parameters parameters
  let returns ← bindReturns definition.returns signature.results
  Step.inBlock (Statement.lowerEach context definition.body)
  if !(← Step.inspect fun state => state.draft.isClosed) then
    returnValues returns

/-- Lower a definition and add its function to the module. -/
def lower (context : Context) (progress : Progress) (definition : Definition) :
    Except Fault Progress := do
  let some signature := context.signatures.lookup definition.name
    | throw (.undeclaredName definition.name)
  let (outcome, state) := (definition.writeBody context signature).after
    (progress.begin definition.name signature)
  outcome
  pure ⟨state.spills, (state.module.pushFunction state.draft.function).2⟩

/-- Lower definitions in order. -/
def lowerEach (context : Context) (progress : Progress) :
    List Definition → Except Error Progress
  | [] => .ok progress
  | definition :: rest => do
    let progress ← within definition.name (definition.lower context progress)
    lowerEach context progress rest

end Definition

namespace Block

/-- The definitions of a program, or the first statement that is none. -/
def definitions : Block → Except Fault (List Definition)
  | [] => .ok []
  | .definition name parameters returns body :: rest =>
    (definitions rest).map fun others => ⟨name, parameters, returns, body⟩ :: others
  | other :: _ => .error (.unsupported (.topLevel other.kind))

/-- Lower a program to a module. There is no module unless all of the program is lowered. -/
def toModule (dialect : Dialect) (types : TypeNames) (moduleName : String) (program : Block) :
    Except Error Ir.Module := do
  let definitions ← program.definitions.mapError fun fault => ⟨none, fault⟩
  let signatures ← Definition.signatures types .empty definitions
  let progress ←
    Definition.lowerEach ⟨dialect, types, signatures⟩ ⟨.empty, .empty moduleName⟩ definitions
  pure progress.module

/-- Lower a program where nothing is chosen but the dialect. -/
def toStandardModule (dialect : Dialect) (program : Block) : Except Error Ir.Module :=
  program.toModule dialect .standard standardModuleName

end Block

end YulLowering
