import YulLowering.Proofs.Statics

/-!
# What is wrong with a source program

A program is statically correct if nothing is wrong with it. All that is wrong with one is listed here in
the order in which the source is read: what is outside all functions comes first, then the types that the
functions are declared with, then their bodies. In a body a statement comes before those behind it, and
what a statement computes comes before what it controls.
-/

namespace YulLowering

open Lowering

/-- Names of types that stand for nothing. -/
def Lowering.TypeNames.faults (names : List String) : List Fault :=
  (names.filter fun name => !TypeNames.known name).map .unknownType

/-- Names of variables that are not visible. -/
def Typing.faults (typing : Typing) (names : List String) : List Fault :=
  (names.filter fun name => (typing.lookup name).isNone).map .undeclaredName

namespace Literal

/-- What is wrong with a literal that is used at a type. -/
def faultsAt (literal : Literal) (type : Ir.ValueType) : List Fault :=
  if literal.value?.any fun value => type.Holds value then [] else [.badLiteral literal.spelling]

/-- What is wrong with a literal in an expression. -/
def faults (surroundings : Surroundings) (literal : Literal) : List Fault :=
  TypeNames.faults [literal.typeName] ++ literal.faultsAt (surroundings.literalType literal)

end Literal

namespace Callable

/-- What is wrong with what is called. Types of functions are not looked at where they are called. -/
def faults : Callable → List Fault
  | .builtin descriptor =>
    (if descriptor.results.length ≤ 1 then []
      else [.unsupported (.severalResults descriptor.name descriptor.results.length)]) ++
      TypeNames.faults descriptor.parameters ++ TypeNames.faults descriptor.results
  | .function _ => []

/-- The name of a builtin that only takes literals. -/
def literalsOnly? : Callable → Option String
  | .builtin descriptor => if descriptor.literalArguments then some descriptor.name else none
  | .function _ => none

end Callable

section

variable (surroundings : Surroundings)

/-! ## Expressions -/

/-- What is wrong with arguments that have to be literals. `index` counts the arguments in front of
these. -/
def Expression.literalFaults (builtin : String) (index : Nat) : List Expression → List Fault
  | [] => []
  | .literal written :: rest =>
    written.faults surroundings ++ Expression.literalFaults builtin (index + 1) rest
  | _ :: rest => .argumentNotLiteral builtin index :: Expression.literalFaults builtin (index + 1) rest

/-- What is wrong with the number of values that an expression gives. Only a call gives another number
than one. -/
def Expression.countFaults (expected : Nat) : Expression → List Fault
  | .call callee _ =>
    match surroundings.results? callee with
    | some results => if results.length = expected then [] else [.arity expected results.length]
    | none => []
  | _ => if expected = 1 then [] else [.arity expected 1]

mutual

/-- What is wrong with an expression, however many values it has to give. -/
def Expression.faults (typing : Typing) : Expression → List Fault
  | .identifier name => typing.faults [name]
  | .literal written => written.faults surroundings
  | .call callee arguments =>
    match surroundings.callable? callee with
    | some callable =>
      callable.faults ++
        match callable.literalsOnly? with
        | some builtin => Expression.literalFaults surroundings builtin 0 arguments
        | none => Expression.argumentFaults typing arguments
    | none => [.undeclaredName callee]
  | .instructionCall mnemonic _ => [.unsupported (.instruction mnemonic)]
  | .instruction mnemonic => [.unsupported (.instruction mnemonic)]

/-- What is wrong with arguments, each of which has to give one value. -/
def Expression.argumentFaults (typing : Typing) : List Expression → List Fault
  | [] => []
  | argument :: rest =>
    argument.faults typing ++ argument.countFaults surroundings 1 ++
      Expression.argumentFaults typing rest

end

/-- What is wrong with an expression that has to give one value. -/
def Expression.operandFaults (typing : Typing) (expression : Expression) : List Fault :=
  expression.faults surroundings typing ++ expression.countFaults surroundings 1

/-- What is wrong with an expression whose values go to variables. Where there are several of them, their
number is looked at first; there is no expression for no variable at all. -/
def Expression.sourceFaults (typing : Typing) (expression : Expression) : Nat → List Fault
  | 0 => [.arity 0 1]
  | 1 => expression.operandFaults surroundings typing
  | count => expression.countFaults surroundings count ++ expression.faults surroundings typing

/-! ## Statements -/

/-- What is wrong with the constants of a switch. They are used at the type of what is switched on. -/
def Case.constantFaults (type : Ir.ValueType) (cases : List Case) : List Fault :=
  cases.flatMap fun arm => arm.value.toList.flatMap fun literal => literal.faultsAt type

/-- What is wrong with a statement that leaves an iteration. -/
def Lowering.LoopExit.faults (inLoop : Bool) (exit : LoopExit) : List Fault :=
  if inLoop then [] else [.outsideLoop exit]

mutual

/-- What is wrong with a statement. `inLoop` tells whether it is in the body of a loop. -/
def Statement.faults (typing : Typing) (inLoop : Bool) : Statement → List Fault
  | .block body => Statement.eachFaults typing inLoop body
  | .declaration declared initialiser =>
    TypeNames.faults (declared.map TypedName.typeName) ++
      match initialiser with
      | some value => value.sourceFaults surroundings typing declared.length
      | none => []
  | .assignment names value =>
    typing.faults names ++ value.sourceFaults surroundings typing names.length
  | .expression expression => expression.faults surroundings typing
  | .conditional condition body =>
    condition.operandFaults surroundings typing ++ Statement.eachFaults typing inLoop body
  | .switch scrutinee cases =>
    scrutinee.operandFaults surroundings typing ++
      Case.constantFaults ((scrutinee.type? surroundings typing).getD .void) cases ++
      Case.eachFaults typing inLoop cases
  | .loop init condition step body =>
    let inside := Statement.declareEach surroundings.types typing init
    Statement.eachFaults typing inLoop init ++ condition.operandFaults surroundings inside ++
      Statement.eachFaults inside true body ++ Statement.eachFaults inside inLoop step
  | .breakLoop => LoopExit.breakLoop.faults inLoop
  | .continueLoop => LoopExit.continueLoop.faults inLoop
  | .definition name _ _ _ => [.nestedDefinition name]
  | .label _ => [.unsupported (.statement .label)]
  | .stackAssignment _ => [.unsupported (.statement .stackAssignment)]

/-- What is wrong with statements. Variables that are declared in front of one are visible in it. -/
def Statement.eachFaults (typing : Typing) (inLoop : Bool) : List Statement → List Fault
  | [] => []
  | statement :: rest =>
    statement.faults typing inLoop ++
      Statement.eachFaults (statement.declare surroundings.types typing) inLoop rest

/-- What is wrong with the arms of a switch. -/
def Case.eachFaults (typing : Typing) (inLoop : Bool) : List Case → List Fault
  | [] => []
  | ⟨_, body⟩ :: rest => Statement.eachFaults typing inLoop body ++ Case.eachFaults typing inLoop rest

end

end

/-! ## Programs -/

namespace Definition

/-- What is wrong with the declared types of a function. -/
def signatureFaults (definition : Definition) : List Fault :=
  TypeNames.faults (definition.parameters.map TypedName.typeName) ++
    TypeNames.faults (definition.returns.map TypedName.typeName)

/-- What is wrong with the body of a function. -/
def bodyFaults (surroundings : Surroundings) (definition : Definition) : List Fault :=
  Statement.eachFaults surroundings (definition.typing surroundings.types) false definition.body

/-- Faults are reported with the function that they are found in. -/
def errors (definition : Definition) (faults : List Fault) : List Error :=
  faults.map fun fault => ⟨some definition.name, fault⟩

end Definition

namespace Block

/-- The functions of a program, whatever else there is at the top level. -/
def functions (program : Block) : List Definition :=
  program.filterMap fun
    | .definition name parameters returns body => some ⟨name, parameters, returns, body⟩
    | _ => none

/-- What there is at the top level besides functions. -/
def strays (program : Block) : List Fault :=
  program.filterMap fun
    | .definition _ _ _ _ => none
    | other => some (.unsupported (.topLevel other.kind))

/-- All that is wrong with a program. -/
def violations (dialect : Dialect) (types : TypeNames) (program : Block) : List Error :=
  program.strays.map (fun fault => ⟨none, fault⟩) ++
    (program.functions.flatMap fun definition => definition.errors definition.signatureFaults) ++
    program.functions.flatMap fun definition =>
      definition.errors (definition.bodyFaults ⟨dialect, types, program.functions⟩)

end Block

end YulLowering
