import YulLowering.Proofs.Statics

/-!
# Well-typed source programs

A source program is well typed if values have the types of the variables that they are given to, and if
arguments have the types of the parameters that they are passed for. Whether names and types mean anything
at all is not asked here.
-/

namespace YulLowering

section

variable (surroundings : Surroundings)

/-- Whether an expression gives values of the expected types. Only a call gives several values. -/
def Expression.gives (typing : Typing) (expected : List (Option Ir.ValueType)) : Expression → Bool
  | .call callee _ => (surroundings.results? callee).map (List.map some) == some expected
  | other => [other.type? surroundings typing] == expected

mutual

/-- Whether all calls in an expression have arguments of the types of their callees' parameters. -/
def Expression.isWellTyped (typing : Typing) : Expression → Bool
  | .call callee arguments =>
    Expression.areWellTyped typing arguments &&
      (surroundings.parameters? callee).map (List.map some) ==
        some (arguments.map fun argument => argument.type? surroundings typing)
  | .identifier _ => true
  | .literal _ => true
  | .instructionCall _ _ => true
  | .instruction _ => true

/-- Whether several expressions are well typed. -/
def Expression.areWellTyped (typing : Typing) : List Expression → Bool
  | [] => true
  | argument :: rest => argument.isWellTyped typing && Expression.areWellTyped typing rest

end

mutual

/-- Whether a statement is well typed where some variables are visible. -/
def Statement.isWellTyped (typing : Typing) : Statement → Bool
  | .block body => Statement.areWellTyped typing body
  | .declaration _ none => true
  | .declaration declared (some value) =>
    value.isWellTyped surroundings typing &&
      value.gives surroundings typing
        ((surroundings.types.typed declared).map fun target => some target.2)
  | .assignment names value =>
    value.isWellTyped surroundings typing &&
      value.gives surroundings typing (names.map fun name => typing.lookup name)
  | .expression expression => expression.isWellTyped surroundings typing
  | .conditional condition body =>
    condition.isWellTyped surroundings typing && Statement.areWellTyped typing body
  | .switch scrutinee cases =>
    scrutinee.isWellTyped surroundings typing && Case.areWellTyped typing cases
  | .loop init condition step body =>
    let inside := Statement.declareEach surroundings.types typing init
    Statement.areWellTyped typing init && condition.isWellTyped surroundings inside &&
      Statement.areWellTyped inside step && Statement.areWellTyped inside body
  | .breakLoop => true
  | .continueLoop => true
  | .definition _ _ _ _ => true
  | .label _ => true
  | .stackAssignment _ => true

/-- Whether statements are well typed, each where the variables that are declared in front of it are visible
too. -/
def Statement.areWellTyped (typing : Typing) : List Statement → Bool
  | [] => true
  | statement :: rest =>
    statement.isWellTyped typing &&
      Statement.areWellTyped (statement.declare surroundings.types typing) rest

/-- Whether the arms of a switch are well typed. -/
def Case.areWellTyped (typing : Typing) : List Case → Bool
  | [] => true
  | ⟨_, body⟩ :: rest => Statement.areWellTyped typing body && Case.areWellTyped typing rest

end

/-- Whether the body of a function is well typed. -/
def Definition.isWellTyped (definition : Definition) : Bool :=
  Statement.areWellTyped surroundings (definition.typing surroundings.types) definition.body

variable {surroundings}

mutual

/-- Variables that an expression does not mention have nothing to do with it. -/
theorem Expression.isWellTyped_congr {first second : Typing} : (expression : Expression) →
    (∀ name, expression.mentions name = true → first.lookup name = second.lookup name) →
    expression.isWellTyped surroundings first = expression.isWellTyped surroundings second
  | .call callee arguments, same => by
      have same : ∀ name, Expression.mentionsAny name arguments = true →
          first.lookup name = second.lookup name :=
        fun name mentioned => same name (by rwa [Expression.mentions])
      obtain ⟨wellTyped, types⟩ := Expression.areWellTyped_congr arguments same
      simp only [Expression.isWellTyped, wellTyped, types]
  | .identifier _, _ => rfl
  | .literal _, _ => rfl
  | .instructionCall _ _, _ => rfl
  | .instruction _, _ => rfl

theorem Expression.areWellTyped_congr {first second : Typing} : (arguments : List Expression) →
    (∀ name, Expression.mentionsAny name arguments = true →
      first.lookup name = second.lookup name) →
    Expression.areWellTyped surroundings first arguments =
        Expression.areWellTyped surroundings second arguments ∧
      arguments.map (fun argument => argument.type? surroundings first) =
        arguments.map fun argument => argument.type? surroundings second
  | [], _ => ⟨rfl, rfl⟩
  | argument :: rest, same => by
      have head : ∀ name, argument.mentions name = true → first.lookup name = second.lookup name :=
        fun name mentioned => same name (by simp [Expression.mentionsAny, mentioned])
      obtain ⟨wellTyped, types⟩ := Expression.areWellTyped_congr rest
        fun name mentioned => same name (by simp [Expression.mentionsAny, mentioned])
      simp only [Expression.areWellTyped, argument.isWellTyped_congr head, wellTyped, List.map_cons,
        argument.type?_congr surroundings head, types, and_self]

end

theorem Expression.gives_congr {first second : Typing} {expression : Expression}
    (same : ∀ name, expression.mentions name = true → first.lookup name = second.lookup name)
    (expected : List (Option Ir.ValueType)) :
    expression.gives surroundings first expected = expression.gives surroundings second expected := by
  cases expression with
  | call => rfl
  | identifier | literal | instructionCall | instruction =>
      simp only [Expression.gives, Expression.type?_congr surroundings same]

end

end YulLowering
