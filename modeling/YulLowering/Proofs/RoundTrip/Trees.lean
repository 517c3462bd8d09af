import YulLowering.Proofs.RoundTrip.Text
import YulLowering.Syntax.Decoding
import YulLowering.Syntax.Encoding

/-!
# Decoding syntax trees that have been encoded

What a decoder gives back is what has been encoded. The kind of a statement or an expression comes first
in its object, and no other field has that name, so the fields are told from it. The parts inside a tree
lie less deep than the tree, which is how far the decoders are allowed to go.
-/

namespace YulLowering

open Json

namespace Json

/-- The members of an object after its first one. -/
def laterMembers : Json → List (String × Json)
  | .object (_ :: later) => later
  | _ => []

/-- The fields of something of several kinds are told from its kind. -/
theorem asTagged_object {tag : Json} {fields : List (String × Json)}
    (others : ∀ field ∈ fields, field.1 ≠ kindField) :
    asTagged (.object ((kindField, tag) :: fields)) = some (tag, .object fields) := by
  have kinds : ((kindField, tag) :: fields).filter (fun field => field.1 == kindField) =
      [(kindField, tag)] := by
    rw [List.filter_cons_of_pos (by simp), List.filter_eq_nil_iff.mpr]
    intro field member
    simpa using others field member
  have fields_left : ((kindField, tag) :: fields).filter (fun field => field.1 != kindField) = fields := by
    rw [List.filter_cons_of_neg (by simp), List.filter_eq_self]
    intro field member
    simpa using others field member
  rw [asTagged, kinds, fields_left]

theorem asList_map {α : Type} {decode : Decoder α} {encode : α → Json} {values : List α}
    (each : ∀ value ∈ values, decode (encode value) = some value) :
    asList decode (.array (values.map encode)) = some values := by
  rw [asList]
  induction values with
  | nil => rfl
  | cons value rest ih =>
      rw [List.map_cons, List.mapM_cons, each value List.mem_cons_self,
        ih fun other member => each other (List.mem_cons_of_mem value member)]
      rfl

/-- What may be missing is decoded if it is never written as null. -/
theorem nullable_encodeOption {α : Type} {decode : Decoder α} {encode : α → Json}
    (each : ∀ value, decode (encode value) = some value) (written : ∀ value, encode value ≠ .null)
    (value : Option α) : nullable decode (some (encodeOption encode value)) = some value := by
  cases value with
  | none => rfl
  | some value =>
      have isWritten := written value
      rw [encodeOption, Option.map_some, Option.getD_some, nullable.eq_def]
      split
      next isNull => exact absurd (Option.some.inj isNull) isWritten
      next isMissing => cases isMissing
      next field _ same =>
        cases same
        rw [each]
        rfl

end Json

attribute [local simp] asRecord occurrences List.lookup_cons required defaulted asString

@[simp] theorem decodeName_encodeName (name : String) : decodeName (encodeName name) = some name := by
  simp [decodeName, encodeName]

@[simp] theorem TypedName.ofJson?_toJson (declared : TypedName) :
    TypedName.ofJson? declared.toJson = some declared := by
  simp [ofJson?, toJson]

@[simp] theorem asList_encodeName (names : List String) :
    asList decodeName (.array (names.map encodeName)) = some names :=
  asList_map fun name _ => decodeName_encodeName name

@[simp] theorem asList_typedNames (declared : List TypedName) :
    asList TypedName.ofJson? (.array (declared.map TypedName.toJson)) = some declared :=
  asList_map fun name _ => name.ofJson?_toJson

@[simp] theorem Literal.ofJson?_fields (literal : Literal) :
    Literal.ofJson? (.object literal.fields) = some literal := by
  simp [ofJson?, fields]

@[simp] theorem nullable_literal (value : Option Literal) :
    nullable Literal.ofJson? (some (encodeOption Literal.toJson value)) = some value :=
  nullable_encodeOption Literal.ofJson?_fields (fun _ isNull => by cases isNull) value

/-! ## Expressions -/

theorem encodeExpressions_eq (expressions : List Expression) :
    encodeExpressions expressions = expressions.map Expression.toJson := by
  induction expressions with
  | nil => rfl
  | cons expression rest ih => rw [encodeExpressions, ih, List.map_cons]

theorem Expression.toJson_eq (expression : Expression) :
    expression.toJson =
      .object ((kindField, .string expression.kind.tag) :: expression.toJson.laterMembers) := by
  cases expression <;> rfl

theorem Expression.laterMembers_others (expression : Expression) :
    ∀ field ∈ expression.toJson.laterMembers, field.1 ≠ kindField := by
  cases expression <;> simp [toJson, laterMembers, Literal.fields, kindField]

/-- A decoder of what lies inside a tree gets back all expressions that are at most so deep. -/
def DecodesExpressions (nested : Decoder Expression) (depth : Nat) : Prop :=
  ∀ expression : Expression, expression.toJson.depth ≤ depth →
    nested expression.toJson = some expression

theorem asList_encodeExpressions {nested : Decoder Expression} {depth : Nat}
    (decodes : DecodesExpressions nested depth) {expressions : List Expression}
    (shallow : depthOfElements (encodeExpressions expressions) ≤ depth) :
    asList nested (.array (encodeExpressions expressions)) = some expressions := by
  rw [encodeExpressions_eq] at shallow ⊢
  apply asList_map
  intro expression member
  apply decodes
  exact Nat.le_trans (depth_le_depthOfElements (List.mem_map_of_mem member)) shallow

theorem decodeExpressionAs_laterMembers {nested : Decoder Expression} {depth : Nat}
    (decodes : DecodesExpressions nested depth) {expression : Expression}
    (shallow : expression.toJson.depth ≤ depth + 1) :
    decodeExpressionAs nested expression.kind (.object expression.toJson.laterMembers) =
      some expression := by
  cases expression with
  | identifier name => exact congrArg (Option.map Expression.identifier) (decodeName_encodeName name)
  | literal literal => exact congrArg (Option.map Expression.literal) literal.ofJson?_fields
  | call callee arguments =>
      have inside : depthOfElements (encodeExpressions arguments) ≤ depth := by
        simp only [Expression.toJson, Json.depth, depthOfMembers] at shallow
        omega
      simp [Expression.toJson, laterMembers, Expression.kind, decodeExpressionAs,
        asList_encodeExpressions decodes inside]
  | instructionCall mnemonic arguments =>
      have inside : depthOfElements (encodeExpressions arguments) ≤ depth := by
        simp only [Expression.toJson, Json.depth, depthOfMembers] at shallow
        omega
      simp [Expression.toJson, laterMembers, Expression.kind, decodeExpressionAs,
        asList_encodeExpressions decodes inside]
  | instruction mnemonic =>
      simp [Expression.toJson, laterMembers, Expression.kind, decodeExpressionAs]

theorem asTagged_expression (expression : Expression) :
    asTagged expression.toJson =
      some (.string expression.kind.tag, .object expression.toJson.laterMembers) := by
  rw [expression.toJson_eq]
  exact asTagged_object expression.laterMembers_others

/-- Expressions are decoded as deep as the decoder may go. -/
theorem decodesExpressions (depth : Nat) : DecodesExpressions (decodeExpression depth) depth := by
  induction depth with
  | zero =>
      intro expression shallow
      rw [expression.toJson_eq, Json.depth] at shallow
      omega
  | succ depth ih =>
      intro expression shallow
      rw [decodeExpression, asTagged_expression]
      simp [decodeExpressionAs_laterMembers ih shallow]

@[simp] theorem decodeInnerExpression_toJson (expression : Expression) :
    decodeInnerExpression expression.toJson = some expression :=
  decodesExpressions _ expression (Nat.le_refl _)

@[simp] theorem nullable_expression (initialiser : Option Expression) :
    nullable decodeInnerExpression (some (encodeOption Expression.toJson initialiser)) =
      some initialiser := by
  apply nullable_encodeOption decodeInnerExpression_toJson
  intro expression isNull
  rw [expression.toJson_eq] at isNull
  cases isNull

/-! ## Statements -/

theorem encodeStatements_eq (statements : List Statement) :
    encodeStatements statements = statements.map Statement.toJson := by
  induction statements with
  | nil => rfl
  | cons statement rest ih => rw [encodeStatements, ih, List.map_cons]

theorem Statement.toJson_eq (statement : Statement) :
    statement.toJson =
      .object ((kindField, .string statement.kind.tag) :: statement.toJson.laterMembers) := by
  cases statement <;> rfl

theorem Statement.laterMembers_others (statement : Statement) :
    ∀ field ∈ statement.toJson.laterMembers, field.1 ≠ kindField := by
  cases statement <;> simp [toJson, laterMembers, kindField]

/-- A decoder of what lies inside a tree gets back all statements that are at most so deep. -/
def DecodesStatements (nested : Decoder Statement) (depth : Nat) : Prop :=
  ∀ statement : Statement, statement.toJson.depth ≤ depth →
    nested statement.toJson = some statement

section

variable {nested : Decoder Statement} {depth : Nat}

theorem decodeBlock_toJson (decodes : DecodesStatements nested depth) (block : Block)
    (shallow : depthOfElements (encodeStatements block) ≤ depth) :
    decodeBlock nested (.object [("statements", .array (encodeStatements block))]) = some block := by
  have decoded : asList nested (.array (encodeStatements block)) = some block := by
    rw [encodeStatements_eq] at shallow ⊢
    apply asList_map
    intro statement member
    apply decodes
    exact Nat.le_trans (depth_le_depthOfElements (List.mem_map_of_mem member)) shallow
  simp [decodeBlock, decoded]

theorem asList_encodeCases (decodes : DecodesStatements nested depth) (cases : List Case)
    (shallow : depthOfElements (encodeCases cases) ≤ depth + 3) :
    asList (decodeCase nested) (.array (encodeCases cases)) = some cases := by
  rw [asList]
  induction cases with
  | nil => rfl
  | cons first rest ih =>
      obtain ⟨value, body⟩ := first
      rw [encodeCases, depthOfElements] at shallow
      have inside : depthOfElements (encodeStatements body) ≤ depth := by
        simp only [Json.depth, depthOfMembers] at shallow
        omega
      have decoded : decodeCase nested (.object [("value", encodeOption Literal.toJson value),
          ("body", .object [("statements", .array (encodeStatements body))])]) = some ⟨value, body⟩ := by
        simp [decodeCase, decodeBlock_toJson decodes body inside]
      rw [encodeCases, List.mapM_cons, decoded, ih (by omega)]
      rfl

/-- The fields of a statement are decoded where the decoder may go as deep as its parts lie. -/
theorem decodeStatementAs_laterMembers (decodes : DecodesStatements nested depth)
    {statement : Statement} (shallow : statement.toJson.depth ≤ depth + 1) :
    decodeStatementAs nested statement.kind (.object statement.toJson.laterMembers) =
      some statement := by
  cases statement with
  | block body =>
      simp only [Statement.toJson, Json.depth, depthOfMembers] at shallow
      have decoded := decodeBlock_toJson decodes body (by omega)
      exact congrArg (Option.map Statement.block) decoded
  | declaration declared initialiser =>
      simp [Statement.toJson, laterMembers, Statement.kind, decodeStatementAs]
  | assignment targets value =>
      simp [Statement.toJson, laterMembers, Statement.kind, decodeStatementAs]
  | expression expression =>
      simp [Statement.toJson, laterMembers, Statement.kind, decodeStatementAs]
  | conditional condition body =>
      simp only [Statement.toJson, Json.depth, depthOfMembers] at shallow
      have decoded := decodeBlock_toJson decodes body (by omega)
      simp [Statement.toJson, laterMembers, Statement.kind, decodeStatementAs, decoded]
  | switch scrutinee cases =>
      simp only [Statement.toJson, Json.depth, depthOfMembers] at shallow
      have decoded := asList_encodeCases decodes cases (by omega)
      simp [Statement.toJson, laterMembers, Statement.kind, decodeStatementAs, decoded]
  | loop init condition step body =>
      simp only [Statement.toJson, Json.depth, depthOfMembers] at shallow
      have first := decodeBlock_toJson decodes init (by omega)
      have second := decodeBlock_toJson decodes step (by omega)
      have third := decodeBlock_toJson decodes body (by omega)
      simp [Statement.toJson, laterMembers, Statement.kind, decodeStatementAs, first, second, third]
  | breakLoop | continueLoop => rfl
  | definition name parameters returns body =>
      simp only [Statement.toJson, Json.depth, depthOfMembers] at shallow
      have decoded := decodeBlock_toJson decodes body (by omega)
      simp [Statement.toJson, laterMembers, Statement.kind, decodeStatementAs, decoded]
  | label name => exact congrArg (Option.map Statement.label) (decodeName_encodeName name)
  | stackAssignment target =>
      simp [Statement.toJson, laterMembers, Statement.kind, decodeStatementAs]

end

theorem asTagged_statement (statement : Statement) :
    asTagged statement.toJson =
      some (.string statement.kind.tag, .object statement.toJson.laterMembers) := by
  rw [statement.toJson_eq]
  exact asTagged_object statement.laterMembers_others

/-- Statements are decoded as deep as the decoder may go. -/
theorem decodesStatements (depth : Nat) : DecodesStatements (decodeStatement depth) depth := by
  induction depth with
  | zero =>
      intro statement shallow
      rw [statement.toJson_eq, Json.depth] at shallow
      omega
  | succ depth ih =>
      intro statement shallow
      rw [decodeStatement, asTagged_statement]
      simp [decodeStatementAs_laterMembers ih shallow]

/-- A statement that has been read to its end is decoded whole. -/
theorem decodeStatement_laterMembers (statement : Statement) :
    decodeStatementAs decodeInnerStatement statement.kind (.object statement.toJson.laterMembers) =
      some statement := by
  have decodes : DecodesStatements decodeInnerStatement statement.toJson.depth :=
    fun inner _ => decodesStatements _ inner (Nat.le_refl _)
  exact decodeStatementAs_laterMembers decodes (Nat.le_succ _)

/-! ## Trees are written without numbers -/

theorem areNumberless_map {α : Type} {encode : α → Json}
    (each : ∀ value, (encode value).isNumberless = true) (values : List α) :
    areNumberless (values.map encode) = true := by
  induction values with
  | nil => rfl
  | cons value rest ih => rw [List.map_cons, areNumberless, each, ih, Bool.and_self]

@[simp] theorem isNumberless_encodeName (name : String) : (encodeName name).isNumberless = true := rfl

@[simp] theorem areNumberless_names (names : List String) :
    areNumberless (names.map encodeName) = true :=
  areNumberless_map isNumberless_encodeName names

@[simp] theorem areNumberless_typedNames (declared : List TypedName) :
    areNumberless (declared.map TypedName.toJson) = true :=
  areNumberless_map (fun _ => rfl) declared

theorem isNumberless_encodeOption {α : Type} {encode : α → Json}
    (each : ∀ value, (encode value).isNumberless = true) (value : Option α) :
    (encodeOption encode value).isNumberless = true := by
  cases value with
  | none => rfl
  | some value => exact each value

mutual

theorem isNumberless_expression : ∀ expression : Expression, expression.toJson.isNumberless = true
  | .identifier _ | .literal _ | .instruction _ => rfl
  | .call _ arguments | .instructionCall _ arguments => by
      simp [Expression.toJson, isNumberless, haveNoNumbers, areNumberless_expressions arguments]

theorem areNumberless_expressions : ∀ expressions : List Expression,
    areNumberless (encodeExpressions expressions) = true
  | [] => rfl
  | expression :: rest => by
      rw [encodeExpressions, areNumberless, isNumberless_expression expression,
        areNumberless_expressions rest, Bool.and_self]

end

mutual

theorem isNumberless_statement : ∀ statement : Statement, statement.toJson.isNumberless = true
  | .block body => by
      simp [Statement.toJson, isNumberless, haveNoNumbers, areNumberless_statements body]
  | .declaration _ initialiser => by
      simp [Statement.toJson, isNumberless, haveNoNumbers,
        isNumberless_encodeOption isNumberless_expression initialiser]
  | .assignment _ value => by
      simp [Statement.toJson, isNumberless, haveNoNumbers, isNumberless_expression value]
  | .expression expression => by
      simp [Statement.toJson, isNumberless, haveNoNumbers, isNumberless_expression expression]
  | .conditional condition body => by
      simp [Statement.toJson, isNumberless, haveNoNumbers, isNumberless_expression condition,
        areNumberless_statements body]
  | .switch scrutinee cases => by
      simp [Statement.toJson, isNumberless, haveNoNumbers, isNumberless_expression scrutinee,
        areNumberless_cases cases]
  | .loop init condition step body => by
      simp [Statement.toJson, isNumberless, haveNoNumbers, isNumberless_expression condition,
        areNumberless_statements init, areNumberless_statements step, areNumberless_statements body]
  | .definition _ _ _ body => by
      simp [Statement.toJson, isNumberless, haveNoNumbers, areNumberless_statements body]
  | .breakLoop | .continueLoop | .label _ | .stackAssignment _ => rfl

theorem areNumberless_statements : ∀ statements : List Statement,
    areNumberless (encodeStatements statements) = true
  | [] => rfl
  | statement :: rest => by
      rw [encodeStatements, areNumberless, isNumberless_statement statement,
        areNumberless_statements rest, Bool.and_self]

theorem areNumberless_cases : ∀ cases : List Case, areNumberless (encodeCases cases) = true
  | [] => rfl
  | ⟨value, body⟩ :: rest => by
      have written : (encodeOption Literal.toJson value).isNumberless = true :=
        isNumberless_encodeOption (fun _ => rfl) value
      simp [encodeCases, areNumberless, isNumberless, haveNoNumbers, areNumberless_statements body,
        areNumberless_cases rest, written]

end

end YulLowering
