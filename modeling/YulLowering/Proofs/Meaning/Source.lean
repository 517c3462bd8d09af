import YulLowering.Dialect
import YulLowering.Lowering.Literal

/-!
# The meaning of source programs

A source program is run by an evaluator that follows the syntax. What builtins do is given from
outside, as a function of their arguments and of an external state of any type. Calls and rounds of
loops use up fuel: a run that needs more than there is has no result, and a run that has none with
any amount of fuel goes on for ever.

A variable that has been declared without an initialiser has no value until it is assigned one, and
a run that reads it before has no result either.
-/

namespace YulLowering

/-- Why a run has no result. -/
inductive Stop where
  /-- Something has no meaning: a name that nothing declares, a literal that is not well spelled, a
  call with the wrong number of arguments, or values in the wrong number. -/
  | stuck
  /-- A variable has been read that has no value yet. -/
  | unassigned
  | outOfFuel
deriving DecidableEq, Repr, Inhabited

/-- What may be computed in the course of a run: it may change the external state, and it may
stop. -/
abbrev Eval (World : Type) := StateT World (Except Stop)

/-- What builtins do: the result of a call, if it has one, and the external state after it. -/
abbrev Interpretation (World : Type) := String → List Nat → World → Nat × World

/-- What calls do, by the name that is called. -/
abbrev Calls (World : Type) := String → List Nat → Eval World (List Nat)

/-! ## Variables -/

/-- The visible variables, the latest first. -/
abbrev Env := List (String × Option Nat)

namespace Env

/-- Variables that are declared together, in order. -/
def declare (env : Env) (names : List String) (contents : List (Option Nat)) : Env :=
  (names.zip contents).reverse ++ env

/-- Give the latest variable of a name a value. -/
def assign (name : String) (value : Nat) : Env → Option Env
  | [] => none
  | (other, content) :: rest =>
    if other = name then some ((other, some value) :: rest)
    else (assign name value rest).map fun rest => (other, content) :: rest

/-- Give variables values in order. There have to be as many values as names. -/
def assignAll : List String → List Nat → Env → Option Env
  | [], [], env => some env
  | name :: names, value :: values, env => (env.assign name value).bind (assignAll names values)
  | _, _, _ => none

/-- Forget the variables that have been declared since there were as many as in `outside`. -/
def leave (outside env : Env) : Env :=
  env.drop (env.length - outside.length)

end Env

/-! ## Expressions -/

section

variable {World : Type} (calls : Calls World) (env : Env)

mutual

/-- The value of an expression that has to give exactly one. -/
def Expression.eval : Expression → Eval World Nat
  | .identifier name =>
    match env.lookup name with
    | some (some value) => pure value
    | some none => throw .unassigned
    | none => throw .stuck
  | .literal written =>
    match written.value? with
    | some value => pure value
    | none => throw .stuck
  | .call callee arguments => do
    let values ← Expression.evalEach arguments
    let results ← calls callee values
    match results with
    | [result] => pure result
    | _ => throw .stuck
  | .instructionCall _ _ => throw .stuck
  | .instruction _ => throw .stuck

/-- The values of arguments, which are evaluated from left to right. -/
def Expression.evalEach : List Expression → Eval World (List Nat)
  | [] => pure []
  | argument :: rest => do
    let value ← argument.eval
    let values ← Expression.evalEach rest
    pure (value :: values)

end

/-- The values of an expression. A call may give any number of them. -/
def Expression.results : Expression → Eval World (List Nat)
  | .call callee arguments => do
    let values ← Expression.evalEach calls env arguments
    calls callee values
  | other => do
    let value ← other.eval calls env
    pure [value]

end

/-! ## Statements -/

/-- How a statement ends: control goes on behind it, or it leaves an iteration of a loop around
it. -/
inductive Flow where
  | onward
  | leaving (exit : Lowering.LoopExit)
deriving DecidableEq, Repr, Inhabited

/-- What a statement does. It gives back the variables that are visible after it. -/
abbrev Action (World : Type) := Env → Eval World (Flow × Env)

namespace Action

variable {World : Type}

/-- Two actions in a row. -/
def andThen (first second : Action World) : Action World := fun env => do
  let (flow, env) ← first env
  match flow with
  | .onward => second env
  | .leaving exit => pure (.leaving exit, env)

/-- An action in a block of its own: what it declares is forgotten. -/
def inBlock (action : Action World) : Action World := fun env => do
  let (flow, later) ← action env
  pure (flow, env.leave later)

/-- One round of a loop. There is no flow if the loop goes on. A `break` of the body ends the loop, a
`continue` goes on at the step; what leaves the step leaves the loop that is around this one. -/
def round (condition : Env → Eval World Nat) (step body : Action World) (env : Env) :
    Eval World (Option Flow × Env) := do
  let value ← condition env
  if value = 0 then pure (some .onward, env)
  else
    let (flow, env) ← body env
    match flow with
    | .leaving .breakLoop => pure (some .onward, env)
    | .onward | .leaving .continueLoop =>
      let (flow, env) ← step env
      match flow with
      | .onward => pure (none, env)
      | .leaving exit => pure (some (.leaving exit), env)

/-- Rounds of a loop, as many as there is fuel for. -/
def iterate (round : Env → Eval World (Option Flow × Env)) : Nat → Action World
  | 0, _ => throw .outOfFuel
  | fuel + 1, env => do
    let (outcome, env) ← round env
    match outcome with
    | none => iterate round fuel env
    | some flow => pure (flow, env)

end Action

/-- The arm of a switch for a value: the first of the cases that equal it, or else the default. Where
there are several defaults the last one counts. -/
def chosenArm {α : Type} (value : Nat) (arms : List (Option Literal × α)) : Option α :=
  let equal := arms.find? fun arm => arm.1.any fun literal => literal.value? == some value
  let default := arms.reverse.find? fun arm => arm.1.isNone
  (equal.or default).map Prod.snd

section

variable {World : Type} (calls : Calls World) (fuel : Nat)

mutual

/-- What a statement does. A loop makes no more than `fuel` rounds. -/
def Statement.exec : Statement → Action World
  | .block body => Action.inBlock (Statement.execEach body)
  | .declaration declared none => fun env =>
    pure (.onward, env.declare (declared.map TypedName.name) (declared.map fun _ => none))
  | .declaration declared (some value) => fun env => do
    let results ← value.results calls env
    if results.length = declared.length then
      pure (.onward, env.declare (declared.map TypedName.name) (results.map some))
    else throw .stuck
  | .assignment names value => fun env => do
    let results ← value.results calls env
    match Env.assignAll names results env with
    | some env => pure (.onward, env)
    | none => throw .stuck
  | .expression expression => fun env => do
    let _ ← expression.results calls env
    pure (.onward, env)
  | .conditional condition body => fun env => do
    let value ← condition.eval calls env
    if value = 0 then pure (.onward, env) else Action.inBlock (Statement.execEach body) env
  | .switch scrutinee cases => fun env => do
    let value ← scrutinee.eval calls env
    match chosenArm value (Case.execEach cases) with
    | some arm => arm env
    | none => pure (.onward, env)
  | .loop init condition step body =>
    Action.inBlock <| (Statement.execEach init).andThen <|
      Action.iterate
        (Action.round (fun env => condition.eval calls env)
          (Action.inBlock (Statement.execEach step)) (Action.inBlock (Statement.execEach body)))
        fuel
  | .breakLoop => fun env => pure (.leaving .breakLoop, env)
  | .continueLoop => fun env => pure (.leaving .continueLoop, env)
  | .definition _ _ _ _ => fun _ => throw .stuck
  | .label _ => fun _ => throw .stuck
  | .stackAssignment _ => fun _ => throw .stuck

/-- What statements do one after the other. -/
def Statement.execEach : List Statement → Action World
  | [] => fun env => pure (.onward, env)
  | statement :: rest => statement.exec.andThen (Statement.execEach rest)

/-- What the arms of a switch do. -/
def Case.execEach : List Case → List (Option Literal × Action World)
  | [] => []
  | ⟨value, body⟩ :: rest => (value, Action.inBlock (Statement.execEach body)) :: Case.execEach rest

end

end

/-! ## Functions -/

/-- The variables of a function when its body is entered. Return variables start at zero. -/
def Definition.env (definition : Definition) (arguments : List Nat) : Env :=
  (Env.declare [] (definition.parameters.map TypedName.name) (arguments.map some)).declare
    (definition.returns.map TypedName.name) (definition.returns.map fun _ => some 0)

/-- The values of the return variables, which are the latest ones of the function. -/
def Definition.returnValues (definition : Definition) (env : Env) : Option (List Nat) :=
  (env.take definition.returns.length).reverse.mapM Prod.snd

/-- What a function gives where its body has ended. -/
def Definition.give {World : Type} (definition : Definition) : Flow × Env → Eval World (List Nat)
  | (.onward, env) =>
    match definition.returnValues env with
    | some results => pure results
    | none => throw .unassigned
  | (.leaving _, _) => throw .stuck

/-- Run the body of a function. -/
def Definition.exec {World : Type} (calls : Calls World) (fuel : Nat) (definition : Definition)
    (arguments : List Nat) : Eval World (List Nat) := do
  if arguments.length ≠ definition.parameters.length then throw .stuck
  let outcome ←
    Action.inBlock (Statement.execEach calls fuel definition.body) (definition.env arguments)
  definition.give outcome

/-- Call a builtin. One with several results cannot be called. -/
def callBuiltin {World : Type} (interpretation : Interpretation World) (builtin : Builtin)
    (arguments : List Nat) : Eval World (List Nat) := fun world =>
  if builtin.results.length ≤ 1 then
    let (result, world) := interpretation builtin.name arguments world
    .ok (builtin.results.map fun _ => result, world)
  else .error .stuck

/-- A program that can be run: its functions, the builtins it can call, and what they do. -/
structure Runnable (World : Type) where
  dialect : Dialect
  definitions : List Definition
  interpretation : Interpretation World

namespace Runnable

variable {World : Type} (program : Runnable World)

/-- The function with a name. -/
def definition? (name : String) : Option Definition :=
  program.definitions.find? fun definition => definition.name == name

/-- What calls do: a name means a builtin if there is one, else a function. -/
def calls (invoke : Definition → List Nat → Eval World (List Nat)) : Calls World :=
  fun name arguments =>
    match program.dialect.lookup name with
    | some builtin => callBuiltin program.interpretation builtin arguments
    | none =>
      match program.definition? name with
      | some definition => invoke definition arguments
      | none => throw .stuck

/-- Run a function on arguments. Calls may be nested as deeply as there is fuel. -/
def run : Nat → Definition → List Nat → Eval World (List Nat)
  | 0 => fun _ _ => throw .outOfFuel
  | fuel + 1 => Definition.exec (program.calls (run fuel)) (fuel + 1)

end Runnable

/-! ## Proper programs -/

section

mutual

/-- Whether an expression reads a variable. -/
def Expression.mentions (name : String) : Expression → Bool
  | .identifier other => other == name
  | .literal _ => false
  | .call _ arguments => Expression.mentionsAny name arguments
  | .instructionCall _ arguments => Expression.mentionsAny name arguments
  | .instruction _ => false

/-- Whether one of several expressions reads a variable. -/
def Expression.mentionsAny (name : String) : List Expression → Bool
  | [] => false
  | argument :: rest => argument.mentions name || Expression.mentionsAny name rest

end

variable (arity : String → Option Nat)

mutual

/-- Whether all calls in an expression have as many arguments as their callees take. -/
def Expression.isProper : Expression → Bool
  | .identifier _ => true
  | .literal _ => true
  | .call callee arguments =>
    (arity callee).all (fun count => arguments.length == count) && Expression.areProper arguments
  | .instructionCall _ arguments => Expression.areProper arguments
  | .instruction _ => true

/-- Whether several expressions are proper. -/
def Expression.areProper : List Expression → Bool
  | [] => true
  | argument :: rest => argument.isProper && Expression.areProper rest

end

variable (lenient : Bool)

mutual

/-- Whether all calls in a statement have as many arguments as their callees take, and no initialiser
reads a name that its own declaration introduces. Unless `lenient` is set, every declaration has an
initialiser. -/
def Statement.isProper : Statement → Bool
  | .block body => Statement.areProper body
  | .declaration declared none => lenient || declared.isEmpty
  | .declaration declared (some value) =>
    declared.all (fun target => !value.mentions target.name) && value.isProper arity
  | .assignment _ value => value.isProper arity
  | .expression expression => expression.isProper arity
  | .conditional condition body => condition.isProper arity && Statement.areProper body
  | .switch scrutinee cases => scrutinee.isProper arity && Case.areProper cases
  | .loop init condition step body =>
    Statement.areProper init && condition.isProper arity && Statement.areProper step &&
      Statement.areProper body
  | .breakLoop => true
  | .continueLoop => true
  | .definition _ _ _ _ => true
  | .label _ => true
  | .stackAssignment _ => true

/-- Whether several statements are proper. -/
def Statement.areProper : List Statement → Bool
  | [] => true
  | statement :: rest => statement.isProper && Statement.areProper rest

/-- Whether the arms of a switch are proper. -/
def Case.areProper : List Case → Bool
  | [] => true
  | ⟨_, body⟩ :: rest => Statement.areProper body && Case.areProper rest

end

end

namespace Runnable

variable {World : Type} (program : Runnable World)

/-- The number of arguments that a function of the program takes. -/
def arity (name : String) : Option Nat :=
  if (program.dialect.lookup name).isSome then none
  else (program.definition? name).map fun definition => definition.parameters.length

/-- Whether the bodies of all functions are proper. -/
def isProper (lenient : Bool) : Bool :=
  program.definitions.all fun definition =>
    Statement.areProper program.arity lenient definition.body

end Runnable

end YulLowering
