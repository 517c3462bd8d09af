import YulLowering.Lowering.Literal
import YulLowering.Lowering.State

/-!
# Lowering expressions

Reading a variable loads its slot, a literal becomes a constant, and a call evaluates its arguments
from left to right. A name that is called means a builtin of the dialect if there is one, else a
function of the program. An expression used as an operand must give exactly one value.
-/

namespace YulLowering.Lowering

/-- What a call has been resolved to. -/
inductive Target where
  | builtin (descriptor : Builtin)
  | function (signature : Signature)
deriving DecidableEq, Repr, Inhabited

/-- The number of values that a call of the target gives. -/
def Target.resultCount : Target → Nat
  | builtin descriptor => descriptor.results.length
  | function signature => signature.results.length

/-- What a call has given. -/
structure CallOutcome where
  /-- The direct result, which calls without results do not have. -/
  first : Option Ir.Value
  count : Nat
deriving DecidableEq, Repr, Inhabited

namespace CallOutcome

/-- The value of a call that gives exactly one. -/
def single (outcome : CallOutcome) : Except Fault Ir.Value :=
  match outcome.first with
  | some value => if outcome.count = 1 then .ok value else .error (.arity 1 outcome.count)
  | none => .error (.arity 1 outcome.count)

end CallOutcome

namespace Context

/-- What a called name means. -/
def resolveCall (context : Context) (name : String) : Except Fault Target :=
  match context.dialect.lookup name with
  | some builtin => .ok (.builtin builtin)
  | none =>
    match context.signatures.lookup name with
    | some signature => .ok (.function signature)
    | none => .error (.undeclaredName name)

/-- The type of a literal. An untyped truth value is a condition, whatever the default type. -/
def literalType (context : Context) (literal : Literal) : Except Fault Ir.ValueType :=
  if literal.typeName.isEmpty ∧ literal.kind = .boolean then .ok .bool
  else context.types.resolve literal.typeName

/-- The declaration of a builtin in a module. A builtin has at most one result. -/
def external (context : Context) (builtin : Builtin) : Except Fault Ir.External := do
  if builtin.results.length > 1 then
    throw (.unsupported (.severalResults builtin.name builtin.results.length))
  let parameters ← context.types.resolveAll builtin.parameters
  let results ← context.types.resolveAll builtin.results
  pure ⟨builtin.name, parameters, results, builtin.effects⟩

end Context

/-- Write a call of a function of the program whose arguments have been evaluated. -/
def Signature.write (signature : Signature) (arguments : List Ir.Value) : Step CallOutcome := do
  let first ← Step.write fun draft =>
    draft.call (.function signature.id) arguments signature.resultType
  pure ⟨first, signature.results.length⟩

/-- Declare a builtin and write a call of it whose arguments have been evaluated. -/
def writeExternal (external : Ir.External) (arguments : List Ir.Value) : Step CallOutcome := do
  Step.declareExternal external
  let first ← Step.write fun draft =>
    draft.call (.builtin external.name external.effects) arguments
      (external.results.head?.getD .void)
  pure ⟨first, external.results.length⟩

end YulLowering.Lowering

namespace YulLowering

open Lowering

/-- Write a literal as a constant. -/
def Literal.lower (context : Context) (literal : Literal) : Step Ir.Value := do
  let type ← Step.ofExcept (context.literalType literal)
  let constant ← Step.ofExcept (literal.valueAt type)
  Step.write fun draft => draft.const type constant

/-- Write the arguments of a builtin that takes literals only. `index` counts the arguments before
these. -/
def Expression.lowerLiterals (context : Context) (builtin : String) (index : Nat) :
    List Expression → Step (List Ir.Value)
  | [] => pure []
  | .literal written :: rest => do
    let value ← written.lower context
    let values ← Expression.lowerLiterals context builtin (index + 1) rest
    pure (value :: values)
  | _ :: _ => throw (.argumentNotLiteral builtin index)

/-- Lower the arguments of a resolved call and write the call. `evaluate` lowers the arguments where
they may be any expressions. -/
def Lowering.Target.invokeWith (context : Context) (target : Target) (arguments : List Expression)
    (evaluate : Step (List Ir.Value)) : Step CallOutcome :=
  match target with
  | .function signature => do
    let values ← evaluate
    signature.write values
  | .builtin descriptor => do
    let external ← Step.ofExcept (context.external descriptor)
    let values ←
      if descriptor.literalArguments then
        Expression.lowerLiterals context descriptor.name 0 arguments
      else evaluate
    writeExternal external values

mutual

/-- Lower an expression that has to give exactly one value. -/
def Expression.lower (context : Context) : Expression → Step Ir.Value
  | .identifier name => do
    let binding ← Step.lookup name
    Step.write fun draft => draft.load (.ofLocal binding.slot) binding.type
  | .literal written => written.lower context
  | .call callee arguments => do
    let target ← Step.ofExcept (context.resolveCall callee)
    let outcome ← target.invokeWith context arguments (Expression.lowerEach context arguments)
    Step.ofExcept outcome.single
  | .instructionCall mnemonic _ => throw (.unsupported (.instruction mnemonic))
  | .instruction mnemonic => throw (.unsupported (.instruction mnemonic))

/-- Lower arguments from left to right. -/
def Expression.lowerEach (context : Context) : List Expression → Step (List Ir.Value)
  | [] => pure []
  | argument :: rest => do
    let value ← argument.lower context
    let values ← Expression.lowerEach context rest
    pure (value :: values)

end

/-- Lower the arguments of a resolved call from left to right and write the call. -/
def Lowering.Target.invoke (context : Context) (target : Target) (arguments : List Expression) :
    Step CallOutcome :=
  target.invokeWith context arguments (Expression.lowerEach context arguments)

namespace Expression

/-- Lower an expression for what it does. A call may give any number of values here. -/
def perform (context : Context) : Expression → Step Unit
  | .call callee arguments => do
    let target ← Step.ofExcept (context.resolveCall callee)
    let _ ← target.invoke context arguments
  | other => do
    let _ ← other.lower context

/-- Lower an expression to a condition. -/
def lowerToCondition (context : Context) (expression : Expression) : Step Ir.Value := do
  let value ← expression.lower context
  Step.write fun draft => draft.toCondition value

end Expression

end YulLowering
