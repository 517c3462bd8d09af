import YulLowering.Json
import YulLowering.Syntax.Tags

/-!
# Syntax trees from JSON values

A record is an object with its fields by name, or an array with its fields in order. Fields that the
record does not have are passed over in an object and refused in an array; a field that is given
twice is refused. Something of several kinds is a record with a further field `kind`, or an array
that starts with the kind. A kind is given by name or, inside other data, by number.
-/

namespace YulLowering.Json

/-- Decoders of values. -/
abbrev Decoder (α : Type) := Json → Option α

/-- A string. -/
def asString : Decoder String
  | .string value => some value
  | _ => none

/-- A truth value. -/
def asBool : Decoder Bool
  | .bool value => some value
  | _ => none

/-- An array whose elements are all of one sort. -/
def asList {α : Type} (decode : Decoder α) : Decoder (List α)
  | .array elements => elements.mapM decode
  | _ => none

/-- How often a name occurs among members. -/
def occurrences (name : String) (members : List (String × Json)) : Nat :=
  members.countP fun (other, _) => other == name

/-- The fields of a record by name, in the order of `names`. A field that is not given is `none`. -/
def asRecord (names : List String) : Decoder (List (Option Json))
  | .array elements =>
    if elements.length ≤ names.length then
      some (elements.map some ++ List.replicate (names.length - elements.length) none)
    else none
  | .object members =>
    if names.all fun name => occurrences name members ≤ 1 then
      some (names.map fun name => members.lookup name)
    else none
  | _ => none

/-- A field that has to be given. -/
def required {α : Type} (decode : Decoder α) : Option Json → Option α
  | some field => decode field
  | none => none

/-- A field with a default. -/
def defaulted {α : Type} (default : α) (decode : Decoder α) : Option Json → Option α
  | some field => decode field
  | none => some default

/-- A field that may be missing or null. -/
def nullable {α : Type} (decode : Decoder α) : Option Json → Option (Option α)
  | some .null | none => some none
  | some field => (decode field).map some

/-- The name of the field that holds the kind. -/
def kindField : String := "kind"

/-- The kind and the other fields of something of several kinds. -/
def asTagged : Decoder (Json × Json)
  | .array (tag :: rest) => some (tag, .array rest)
  | .object members =>
    match members.filter fun (name, _) => name == kindField with
    | [(_, tag)] => some (tag, .object (members.filter fun (name, _) => name != kindField))
    | _ => none
  | _ => none

/-- A kind by name. -/
def asNamedKind {κ : Type} (all : List κ) (tag : κ → String) : Decoder κ
  | .string name => all.find? fun kind => tag kind == name
  | _ => none

/-- A kind by name or by number. -/
def asKind {κ : Type} (all : List κ) (tag : κ → String) : Decoder κ
  | .number (.natural index) => all[index]?
  | json => asNamedKind all tag json

/-- A kind that is given by name may be given so wherever a number would do too. -/
theorem asKind_of_asNamedKind {κ : Type} {all : List κ} {tag : κ → String} {json : Json} {kind : κ}
    (named : asNamedKind all tag json = some kind) : asKind all tag json = some kind := by
  cases json <;> simp_all [asNamedKind, asKind]

/-- A kind of statement is found by its name. -/
@[simp] theorem asNamedKind_statement_tag (kind : Statement.Kind) :
    asNamedKind Statement.Kind.all Statement.Kind.tag (.string kind.tag) = some kind := by
  cases kind <;> rfl

/-- A kind of expression is found by its name. -/
@[simp] theorem asNamedKind_expression_tag (kind : Expression.Kind) :
    asNamedKind Expression.Kind.all Expression.Kind.tag (.string kind.tag) = some kind := by
  cases kind <;> rfl

/-- Inside other data too a kind of statement is found by its name. -/
@[simp] theorem asKind_statement_tag (kind : Statement.Kind) :
    asKind Statement.Kind.all Statement.Kind.tag (.string kind.tag) = some kind :=
  asKind_of_asNamedKind (asNamedKind_statement_tag kind)

/-- Inside other data too a kind of expression is found by its name. -/
@[simp] theorem asKind_expression_tag (kind : Expression.Kind) :
    asKind Expression.Kind.all Expression.Kind.tag (.string kind.tag) = some kind :=
  asKind_of_asNamedKind (asNamedKind_expression_tag kind)

/-- A kind by name; in place of the name there may be an object that has it as the name of its only
member, if that member holds nothing. -/
def asUnitKind {κ : Type} (all : List κ) (tag : κ → String) : Decoder κ
  | .string name | .object [(name, .null)] | .object [(name, .object [])] =>
    all.find? fun kind => tag kind == name
  | _ => none

/-- A kind of literal is found by its name. -/
@[simp] theorem asUnitKind_literal_tag (kind : LiteralKind) :
    asUnitKind LiteralKind.all LiteralKind.tag (.string kind.tag) = some kind := by
  cases kind <;> rfl

end YulLowering.Json

namespace YulLowering

open Json

/-- Decode a name that stands in an object. -/
def decodeName : Decoder String := fun json => do
  let [name] ← asRecord ["name"] json | none
  required asString name

/-- Decode a declared name. -/
def TypedName.ofJson? : Decoder TypedName := fun json => do
  let [name, typeName] ← asRecord ["name", "type"] json | none
  pure ⟨← required asString name, ← defaulted "" asString typeName⟩

/-- Decode a literal, `kind` aside. -/
def Literal.ofJson? : Decoder Literal := fun json => do
  let [kind, spelling, typeName] ← asRecord ["literal_kind", "value", "type"] json | none
  pure ⟨← required (asUnitKind LiteralKind.all LiteralKind.tag) kind,
    ← required asString spelling, ← defaulted "" asString typeName⟩

/-- Decode the fields of an expression of a given kind. `nested` decodes expressions inside it. -/
def decodeExpressionAs (nested : Decoder Expression) : Expression.Kind → Decoder Expression
  | .identifier, json => .identifier <$> decodeName json
  | .literal, json => .literal <$> Literal.ofJson? json
  | .call, json => do
    let [callee, arguments] ← asRecord ["function_name", "arguments"] json | none
    pure (.call (← required decodeName callee) (← defaulted [] (asList nested) arguments))
  | .instructionCall, json => do
    let [mnemonic, arguments] ← asRecord ["instruction", "arguments"] json | none
    pure (.instructionCall (← required asString mnemonic)
      (← defaulted [] (asList nested) arguments))
  | .instruction, json => do
    let [mnemonic] ← asRecord ["instruction"] json | none
    pure (.instruction (← required asString mnemonic))

/-- Decode an expression inside which others lie at most `fuel` deep. Its kind may be a number. -/
def decodeExpression : Nat → Decoder Expression
  | 0, _ => none
  | fuel + 1, json => do
    let (tag, fields) ← asTagged json
    let kind ← asKind Expression.Kind.all Expression.Kind.tag tag
    decodeExpressionAs (decodeExpression fuel) kind fields

/-- Decode an expression inside other data. -/
def decodeInnerExpression : Decoder Expression := fun json =>
  decodeExpression json.depth json

/-- Decode an expression that stands by itself: its own kind has to be given by name. -/
def Expression.ofJson? : Decoder Expression := fun json => do
  let (tag, fields) ← asTagged json
  let kind ← asNamedKind Expression.Kind.all Expression.Kind.tag tag
  decodeExpressionAs decodeInnerExpression kind fields

/-- Decode a block. `nested` decodes its statements. -/
def decodeBlock (nested : Decoder Statement) : Decoder Block := fun json => do
  let [statements] ← asRecord ["statements"] json | none
  defaulted [] (asList nested) statements

/-- Decode an arm of a switch. `nested` decodes the statements of its body. -/
def decodeCase (nested : Decoder Statement) : Decoder Case := fun json => do
  let [value, body] ← asRecord ["value", "body"] json | none
  pure ⟨← nullable Literal.ofJson? value, ← required (decodeBlock nested) body⟩

/-- Decode a statement without fields: what an array holds beyond the kind is refused. -/
def decodeBare (statement : Statement) : Decoder Statement
  | .array (_ :: _) => none
  | _ => some statement

/-- Decode the fields of a statement of a given kind. `nested` decodes statements inside it. -/
def decodeStatementAs (nested : Decoder Statement) : Statement.Kind → Decoder Statement
  | .block, json => .block <$> decodeBlock nested json
  | .declaration, json => do
    let [declared, value] ← asRecord ["variables", "value"] json | none
    pure (.declaration (← required (asList TypedName.ofJson?) declared)
      (← nullable decodeInnerExpression value))
  | .assignment, json => do
    let [names, value] ← asRecord ["variable_names", "value"] json | none
    pure (.assignment (← required (asList decodeName) names)
      (← required decodeInnerExpression value))
  | .expression, json => do
    let [expression] ← asRecord ["expression"] json | none
    pure (.expression (← required decodeInnerExpression expression))
  | .conditional, json => do
    let [condition, body] ← asRecord ["condition", "body"] json | none
    pure (.conditional (← required decodeInnerExpression condition)
      (← required (decodeBlock nested) body))
  | .switch, json => do
    let [scrutinee, cases] ← asRecord ["expression", "cases"] json | none
    pure (.switch (← required decodeInnerExpression scrutinee)
      (← required (asList (decodeCase nested)) cases))
  | .loop, json => do
    let [init, condition, step, body] ← asRecord ["pre", "condition", "post", "body"] json | none
    pure (.loop (← required (decodeBlock nested) init) (← required decodeInnerExpression condition)
      (← required (decodeBlock nested) step) (← required (decodeBlock nested) body))
  | .breakLoop, json => decodeBare .breakLoop json
  | .continueLoop, json => decodeBare .continueLoop json
  | .definition, json => do
    let [name, parameters, returns, body] ←
      asRecord ["name", "parameters", "return_variables", "body"] json | none
    pure (.definition (← required asString name)
      (← defaulted [] (asList TypedName.ofJson?) parameters)
      (← defaulted [] (asList TypedName.ofJson?) returns) (← required (decodeBlock nested) body))
  | .label, json => .label <$> decodeName json
  | .stackAssignment, json => do
    let [target] ← asRecord ["variable_name"] json | none
    pure (.stackAssignment (← required decodeName target))

/-- Decode a statement inside which others lie at most `fuel` deep. Its kind may be a number. -/
def decodeStatement : Nat → Decoder Statement
  | 0, _ => none
  | fuel + 1, json => do
    let (tag, fields) ← asTagged json
    let kind ← asKind Statement.Kind.all Statement.Kind.tag tag
    decodeStatementAs (decodeStatement fuel) kind fields

/-- Decode a statement inside other data. -/
def decodeInnerStatement : Decoder Statement := fun json =>
  decodeStatement json.depth json

/-- Decode a statement that stands by itself: its own kind has to be given by name. -/
def Statement.ofJson? : Decoder Statement := fun json => do
  let (tag, fields) ← asTagged json
  let kind ← asNamedKind Statement.Kind.all Statement.Kind.tag tag
  decodeStatementAs decodeInnerStatement kind fields

end YulLowering
