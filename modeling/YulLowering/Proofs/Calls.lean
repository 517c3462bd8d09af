import YulLowering.Syntax

/-!
# The calls of a source program

A program is read for the names that it calls, one for each call expression and in the order in which the
calls are made: arguments come before the call that they are passed to. It is also read for the expressions
whose values it gives to variables.
-/

namespace YulLowering

mutual

/-- The names that are called in an expression. -/
def Expression.calls : Expression → List String
  | .identifier _ => []
  | .literal _ => []
  | .call callee arguments => Expression.callsOfEach arguments ++ [callee]
  | .instructionCall _ arguments => Expression.callsOfEach arguments
  | .instruction _ => []

/-- The names that are called in several expressions. -/
def Expression.callsOfEach : List Expression → List String
  | [] => []
  | argument :: rest => argument.calls ++ Expression.callsOfEach rest

end

mutual

/-- The names that are called in a statement. The step of a loop comes after its body. -/
def Statement.calls : Statement → List String
  | .block body => Statement.callsOfEach body
  | .declaration _ none => []
  | .declaration _ (some value) => value.calls
  | .assignment _ value => value.calls
  | .expression expression => expression.calls
  | .conditional condition body => condition.calls ++ Statement.callsOfEach body
  | .switch scrutinee cases => scrutinee.calls ++ Case.callsOfEach cases
  | .loop init condition step body =>
    Statement.callsOfEach init ++ condition.calls ++ Statement.callsOfEach body ++
      Statement.callsOfEach step
  | .breakLoop => []
  | .continueLoop => []
  | .definition _ _ _ body => Statement.callsOfEach body
  | .label _ => []
  | .stackAssignment _ => []

/-- The names that are called in several statements. -/
def Statement.callsOfEach : List Statement → List String
  | [] => []
  | statement :: rest => statement.calls ++ Statement.callsOfEach rest

/-- The names that are called in the arms of a switch. -/
def Case.callsOfEach : List Case → List String
  | [] => []
  | ⟨_, body⟩ :: rest => Statement.callsOfEach body ++ Case.callsOfEach rest

end

/-- The names that are called in a function. -/
def Definition.calls (definition : Definition) : List String :=
  Statement.callsOfEach definition.body

/-- A number of variables that are given the values of an expression. -/
structure Reception where
  count : Nat
  value : Expression

mutual

/-- The declarations with initialisers and the assignments in a statement. -/
def Statement.receptions : Statement → List Reception
  | .block body => Statement.receptionsOfEach body
  | .declaration _ none => []
  | .declaration declared (some value) => [⟨declared.length, value⟩]
  | .assignment targets value => [⟨targets.length, value⟩]
  | .expression _ => []
  | .conditional _ body => Statement.receptionsOfEach body
  | .switch _ cases => Case.receptionsOfEach cases
  | .loop init _ step body =>
    Statement.receptionsOfEach init ++ Statement.receptionsOfEach body ++
      Statement.receptionsOfEach step
  | .breakLoop => []
  | .continueLoop => []
  | .definition _ _ _ body => Statement.receptionsOfEach body
  | .label _ => []
  | .stackAssignment _ => []

/-- The declarations with initialisers and the assignments in several statements. -/
def Statement.receptionsOfEach : List Statement → List Reception
  | [] => []
  | statement :: rest => statement.receptions ++ Statement.receptionsOfEach rest

/-- The declarations with initialisers and the assignments in the arms of a switch. -/
def Case.receptionsOfEach : List Case → List Reception
  | [] => []
  | ⟨_, body⟩ :: rest => Statement.receptionsOfEach body ++ Case.receptionsOfEach rest

end

/-- The declarations with initialisers and the assignments in a function. -/
def Definition.receptions (definition : Definition) : List Reception :=
  Statement.receptionsOfEach definition.body

end YulLowering
