import YulLowering.Syntax

/-!
# The words of the JSON form

In JSON a statement or an expression carries the name of its kind, and every field has a name. The
kinds are numbered in the order of their lists here.
-/

namespace YulLowering

/-- The name of a kind of statement in JSON. -/
def Statement.Kind.tag : Statement.Kind → String
  | .block => "Block"
  | .declaration => "VariableDeclaration"
  | .assignment => "Assignment"
  | .expression => "ExpressionStatement"
  | .conditional => "If"
  | .switch => "Switch"
  | .loop => "ForLoop"
  | .breakLoop => "Break"
  | .continueLoop => "Continue"
  | .definition => "FunctionDefinition"
  | .label => "Label"
  | .stackAssignment => "StackAssignment"

/-- All kinds of statement. -/
def Statement.Kind.all : List Statement.Kind :=
  [.block, .declaration, .assignment, .expression, .conditional, .switch, .loop, .breakLoop,
    .continueLoop, .definition, .label, .stackAssignment]

/-- The kinds of expression. -/
inductive Expression.Kind where
  | identifier
  | literal
  | call
  | instructionCall
  | instruction
deriving DecidableEq, Repr, Inhabited

/-- The kind of an expression. -/
def Expression.kind : Expression → Expression.Kind
  | .identifier _ => .identifier
  | .literal _ => .literal
  | .call _ _ => .call
  | .instructionCall _ _ => .instructionCall
  | .instruction _ => .instruction

/-- The name of a kind of expression in JSON. -/
def Expression.Kind.tag : Expression.Kind → String
  | .identifier => "Identifier"
  | .literal => "Literal"
  | .call => "FunctionCall"
  | .instructionCall => "FunctionalInstruction"
  | .instruction => "Instruction"

/-- All kinds of expression. -/
def Expression.Kind.all : List Expression.Kind :=
  [.identifier, .literal, .call, .instructionCall, .instruction]

/-- The name of a kind of literal in JSON. -/
def LiteralKind.tag : LiteralKind → String
  | .number => "number"
  | .boolean => "boolean"
  | .string => "string"

/-- All kinds of literal. -/
def LiteralKind.all : List LiteralKind :=
  [.number, .boolean, .string]

end YulLowering
