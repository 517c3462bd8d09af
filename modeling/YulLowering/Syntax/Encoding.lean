import YulLowering.Json
import YulLowering.Syntax.Tags

/-!
# Syntax trees as JSON values

Every field is written, in a fixed order, with `kind` first. A block that is a statement of its own
has its statements beside its kind.
-/

namespace YulLowering

/-- A name as an object. -/
def encodeName (name : String) : Json :=
  .object [("name", .string name)]

/-- The JSON form of a declared name. -/
def TypedName.toJson (typedName : TypedName) : Json :=
  .object [("name", .string typedName.name), ("type", .string typedName.typeName)]

/-- The fields of a literal. -/
def Literal.fields (literal : Literal) : List (String × Json) :=
  [("literal_kind", .string literal.kind.tag), ("value", .string literal.spelling),
    ("type", .string literal.typeName)]

/-- The JSON form of a literal that does not stand for an expression. -/
def Literal.toJson (literal : Literal) : Json :=
  .object literal.fields

mutual

/-- The JSON form of an expression. -/
def Expression.toJson : Expression → Json
  | .identifier name =>
    .object [("kind", .string (Expression.Kind.tag .identifier)), ("name", .string name)]
  | .literal literal =>
    .object (("kind", .string (Expression.Kind.tag .literal)) :: literal.fields)
  | .call callee arguments =>
    .object [("kind", .string (Expression.Kind.tag .call)), ("function_name", encodeName callee),
      ("arguments", .array (encodeExpressions arguments))]
  | .instructionCall mnemonic arguments =>
    .object [("kind", .string (Expression.Kind.tag .instructionCall)),
      ("instruction", .string mnemonic), ("arguments", .array (encodeExpressions arguments))]
  | .instruction mnemonic =>
    .object [("kind", .string (Expression.Kind.tag .instruction)),
      ("instruction", .string mnemonic)]

/-- The JSON forms of expressions. -/
def encodeExpressions : List Expression → List Json
  | [] => []
  | expression :: rest => expression.toJson :: encodeExpressions rest

end

/-- The JSON form of something that may be missing. -/
def encodeOption {α : Type} (encode : α → Json) (value : Option α) : Json :=
  (value.map encode).getD .null

mutual

/-- The JSON form of a statement. -/
def Statement.toJson : Statement → Json
  | .block body =>
    .object [("kind", .string (Statement.Kind.tag .block)),
      ("statements", .array (encodeStatements body))]
  | .declaration declared initialiser =>
    .object [("kind", .string (Statement.Kind.tag .declaration)),
      ("variables", .array (declared.map TypedName.toJson)),
      ("value", encodeOption Expression.toJson initialiser)]
  | .assignment targets value =>
    .object [("kind", .string (Statement.Kind.tag .assignment)),
      ("variable_names", .array (targets.map encodeName)), ("value", value.toJson)]
  | .expression expression =>
    .object [("kind", .string (Statement.Kind.tag .expression)),
      ("expression", expression.toJson)]
  | .conditional condition body =>
    .object [("kind", .string (Statement.Kind.tag .conditional)), ("condition", condition.toJson),
      ("body", .object [("statements", .array (encodeStatements body))])]
  | .switch scrutinee cases =>
    .object [("kind", .string (Statement.Kind.tag .switch)), ("expression", scrutinee.toJson),
      ("cases", .array (encodeCases cases))]
  | .loop init condition step body =>
    .object [("kind", .string (Statement.Kind.tag .loop)),
      ("pre", .object [("statements", .array (encodeStatements init))]),
      ("condition", condition.toJson),
      ("post", .object [("statements", .array (encodeStatements step))]),
      ("body", .object [("statements", .array (encodeStatements body))])]
  | .breakLoop => .object [("kind", .string (Statement.Kind.tag .breakLoop))]
  | .continueLoop => .object [("kind", .string (Statement.Kind.tag .continueLoop))]
  | .definition name parameters returns body =>
    .object [("kind", .string (Statement.Kind.tag .definition)), ("name", .string name),
      ("parameters", .array (parameters.map TypedName.toJson)),
      ("return_variables", .array (returns.map TypedName.toJson)),
      ("body", .object [("statements", .array (encodeStatements body))])]
  | .label name =>
    .object [("kind", .string (Statement.Kind.tag .label)), ("name", .string name)]
  | .stackAssignment target =>
    .object [("kind", .string (Statement.Kind.tag .stackAssignment)),
      ("variable_name", encodeName target)]

/-- The JSON forms of statements. -/
def encodeStatements : List Statement → List Json
  | [] => []
  | statement :: rest => statement.toJson :: encodeStatements rest

/-- The JSON forms of the arms of a switch. -/
def encodeCases : List Case → List Json
  | [] => []
  | ⟨value, body⟩ :: rest =>
    .object [("value", encodeOption Literal.toJson value),
      ("body", .object [("statements", .array (encodeStatements body))])] :: encodeCases rest

end

/-- The JSON form of a block. -/
def Block.toJson (block : Block) : Json :=
  .object [("statements", .array (encodeStatements block))]

end YulLowering
