import YulLowering.Lowering.Programs

/-!
# The default type as an abbreviation

An empty type name stands for the default type, except that an untyped truth value is a condition. Where
every empty name of a program and of its builtins is replaced by the name that it stands for, the default
is not asked for any more: lowering gives the same module, or the same error, whatever the default is.
-/

namespace YulLowering

/-- A type name, with the name of the default type in place of the empty one. -/
def orDefault (default typeName : String) : String :=
  if typeName.isEmpty then default else typeName

/-! ## Names of types written out -/

namespace TypedName

/-- Name the type of a declared name. -/
def annotate (default : String) (declared : TypedName) : TypedName :=
  { declared with typeName := orDefault default declared.typeName }

@[simp] theorem name_annotate (default : String) (declared : TypedName) :
    (declared.annotate default).name = declared.name := rfl

end TypedName

/-- Name the type of a literal. -/
def Literal.annotate (default : String) (literal : Literal) : Literal :=
  match literal.kind with
  | .boolean => { literal with typeName := orDefault "bool" literal.typeName }
  | .number | .string => { literal with typeName := orDefault default literal.typeName }

mutual

/-- Name the types of the literals in an expression. -/
def Expression.annotate (default : String) : Expression → Expression
  | .identifier name => .identifier name
  | .literal written => .literal (written.annotate default)
  | .call callee arguments => .call callee (Expression.annotateEach default arguments)
  | .instructionCall mnemonic arguments =>
    .instructionCall mnemonic (Expression.annotateEach default arguments)
  | .instruction mnemonic => .instruction mnemonic

/-- Name the types of the literals in several expressions. -/
def Expression.annotateEach (default : String) : List Expression → List Expression
  | [] => []
  | argument :: rest => argument.annotate default :: Expression.annotateEach default rest

end

mutual

/-- Name the types of the literals and of the declared names in a statement. -/
def Statement.annotate (default : String) : Statement → Statement
  | .block body => .block (Statement.annotateEach default body)
  | .declaration declared initialiser =>
    .declaration (declared.map (TypedName.annotate default))
      (initialiser.map (Expression.annotate default))
  | .assignment targets value => .assignment targets (value.annotate default)
  | .expression expression => .expression (expression.annotate default)
  | .conditional condition body =>
    .conditional (condition.annotate default) (Statement.annotateEach default body)
  | .switch scrutinee cases => .switch (scrutinee.annotate default) (Case.annotateEach default cases)
  | .loop init condition step body =>
    .loop (Statement.annotateEach default init) (condition.annotate default)
      (Statement.annotateEach default step) (Statement.annotateEach default body)
  | .breakLoop => .breakLoop
  | .continueLoop => .continueLoop
  | .definition name parameters returns body =>
    .definition name (parameters.map (TypedName.annotate default))
      (returns.map (TypedName.annotate default)) (Statement.annotateEach default body)
  | .label name => .label name
  | .stackAssignment target => .stackAssignment target

/-- Name the types in several statements. -/
def Statement.annotateEach (default : String) : List Statement → List Statement
  | [] => []
  | statement :: rest => statement.annotate default :: Statement.annotateEach default rest

/-- Name the types in the arms of a switch, those of their constants among them. -/
def Case.annotateEach (default : String) : List Case → List Case
  | [] => []
  | ⟨value, body⟩ :: rest =>
    ⟨value.map (Literal.annotate default), Statement.annotateEach default body⟩ ::
      Case.annotateEach default rest

end

/-- Name the types in a definition. -/
def Definition.annotate (default : String) (definition : Definition) : Definition where
  name := definition.name
  parameters := definition.parameters.map (TypedName.annotate default)
  returns := definition.returns.map (TypedName.annotate default)
  body := Statement.annotateEach default definition.body

@[simp] theorem Definition.name_annotate (default : String) (definition : Definition) :
    (definition.annotate default).name = definition.name := rfl

/-- Name the types in a program. -/
def Block.annotate (default : String) (program : Block) : Block :=
  Statement.annotateEach default program

/-- Name the types of the parameters and results of a builtin. -/
def Builtin.annotate (default : String) (builtin : Builtin) : Builtin :=
  { builtin with
    parameters := builtin.parameters.map (orDefault default)
    results := builtin.results.map (orDefault default) }

namespace Dialect

/-- Name the types of the parameters and results of all builtins. -/
def annotate (default : String) (dialect : Dialect) : Dialect :=
  { dialect with builtins := dialect.builtins.map (Builtin.annotate default) }

theorem lookup_annotate (default : String) (dialect : Dialect) (name : String) :
    (dialect.annotate default).lookup name =
      (dialect.lookup name).map (Builtin.annotate default) := by
  rw [lookup, annotate, List.find?_map]
  rfl

end Dialect

namespace Lowering

/-- Take the default type of a context away: its builtins have the types written out, and what is untyped
has another type now. -/
def Context.annotate (default : String) (others : TypeNames) (context : Context) : Context where
  dialect := context.dialect.annotate default
  types := others
  signatures := context.signatures

/-- What a call has been resolved to, with the types of a builtin written out. -/
def Target.annotate (default : String) : Target → Target
  | .builtin descriptor => .builtin (descriptor.annotate default)
  | .function signature => .function signature

/-! ## What names of types stand for -/

/-- The default type of type names has a name, which is not the empty one. -/
structure TypeNames.HasDefault (types : TypeNames) (default : String) : Prop where
  isNamed : default.isEmpty = false
  made : ofDefaultName default = .ok types

namespace TypeNames.HasDefault

variable {types others : TypeNames} {default : String}

/-- The name of the default type means it, whatever the default is. -/
theorem resolve_default (chosen : types.HasDefault default) (others : TypeNames) :
    others.resolve default = .ok types.untyped := by
  have made := chosen.made
  rw [ofDefaultName, resolve, chosen.isNamed] at made
  rw [resolve, chosen.isNamed]
  cases found : catalog.lookup default with
  | none =>
      rw [found] at made
      cases made
  | some type =>
      rw [found] at made
      cases made
      rfl

/-- A name that is written out means what it has stood for. -/
theorem resolve_orDefault (chosen : types.HasDefault default) (others : TypeNames) (name : String) :
    others.resolve (orDefault default name) = types.resolve name := by
  cases untyped : name.isEmpty with
  | true =>
      rw [orDefault, untyped, if_pos rfl, chosen.resolve_default others, resolve, untyped, if_pos rfl]
  | false =>
      rw [orDefault, untyped, if_neg Bool.false_ne_true, resolve, resolve, untyped,
        if_neg Bool.false_ne_true, if_neg Bool.false_ne_true]

theorem resolveAll_map (chosen : types.HasDefault default) (others : TypeNames)
    (names : List String) :
    others.resolveAll (names.map (orDefault default)) = types.resolveAll names := by
  rw [resolveAll, resolveAll]
  induction names with
  | nil => rfl
  | cons name rest ih =>
      rw [List.map_cons, List.mapM_cons, List.mapM_cons, chosen.resolve_orDefault, ih]

theorem resolveAll_typedNames (chosen : types.HasDefault default) (others : TypeNames)
    (declared : List TypedName) :
    others.resolveAll ((declared.map (TypedName.annotate default)).map TypedName.typeName) =
      types.resolveAll (declared.map TypedName.typeName) := by
  rw [← chosen.resolveAll_map others, List.map_map, List.map_map]
  rfl

end TypeNames.HasDefault

/-! ## Expressions -/

variable {context : Context} {default : String}

/-- A literal has the same type and the same value with its type written out. -/
theorem lower_literal_annotate (chosen : context.types.HasDefault default) (others : TypeNames)
    (literal : Literal) :
    (literal.annotate default).lower (context.annotate default others) = literal.lower context := by
  obtain ⟨kind, spelling, typeName⟩ := literal
  have sameType : (context.annotate default others).literalType
      (Literal.annotate default ⟨kind, spelling, typeName⟩) =
        context.literalType ⟨kind, spelling, typeName⟩ := by
    unfold Context.literalType Literal.annotate
    cases kind with
    | number | string =>
        simp only [reduceCtorEq, and_false, if_false]
        exact chosen.resolve_orDefault others typeName
    | boolean =>
        cases untyped : typeName.isEmpty with
        | true =>
            simp only [orDefault, untyped]
            rfl
        | false =>
            simp only [orDefault, untyped, Bool.false_eq_true, false_and, if_false]
            rw [TypeNames.resolve, TypeNames.resolve, untyped]
            rfl
  have sameValue (type : Ir.ValueType) :
      (Literal.annotate default ⟨kind, spelling, typeName⟩).valueAt type =
        Literal.valueAt ⟨kind, spelling, typeName⟩ type := by
    cases kind <;> rfl
  rw [Literal.lower, Literal.lower, sameType]
  simp only [sameValue]

theorem lowerLiterals_annotate (chosen : context.types.HasDefault default) (others : TypeNames)
    (builtin : String) (arguments : List Expression) (index : Nat) :
    Expression.lowerLiterals (context.annotate default others) builtin index
        (Expression.annotateEach default arguments) =
      Expression.lowerLiterals context builtin index arguments := by
  induction arguments generalizing index with
  | nil => rfl
  | cons argument rest ih =>
      rw [Expression.annotateEach]
      cases argument with
      | literal literal =>
          rw [Expression.annotate, Expression.lowerLiterals, Expression.lowerLiterals, ih,
            lower_literal_annotate chosen others]
      | identifier | call | instructionCall | instruction => rfl

theorem resolveCall_annotate (context : Context) (default : String) (others : TypeNames)
    (name : String) :
    (context.annotate default others).resolveCall name =
      (context.resolveCall name).map (Target.annotate default) := by
  rw [Context.resolveCall, Context.resolveCall, Context.annotate, Dialect.lookup_annotate]
  cases context.dialect.lookup name with
  | some builtin => rfl
  | none => cases context.signatures.lookup name <;> rfl

theorem external_annotate (chosen : context.types.HasDefault default) (others : TypeNames)
    (builtin : Builtin) :
    (context.annotate default others).external (builtin.annotate default) =
      context.external builtin := by
  have length : (builtin.annotate default).results.length = builtin.results.length :=
    List.length_map _
  have parameters : others.resolveAll (builtin.annotate default).parameters =
      context.types.resolveAll builtin.parameters := chosen.resolveAll_map others _
  have results : others.resolveAll (builtin.annotate default).results =
      context.types.resolveAll builtin.results := chosen.resolveAll_map others _
  unfold Context.external
  rw [length, Context.annotate, parameters, results]
  rfl

/-- A call is lowered the same if its arguments are. -/
theorem invokeWith_annotate (chosen : context.types.HasDefault default) (others : TypeNames)
    (target : Target) (arguments : List Expression) (evaluate : Step (List Ir.Value)) :
    (target.annotate default).invokeWith (context.annotate default others)
        (Expression.annotateEach default arguments) evaluate =
      target.invokeWith context arguments evaluate := by
  cases target with
  | function signature => rfl
  | builtin builtin =>
      rw [Target.annotate, Target.invokeWith, Target.invokeWith, external_annotate chosen others,
        lowerLiterals_annotate chosen others]
      rfl

/-- Where a target is looked up by its name, the types of builtins may be written out afterwards. -/
theorem ofExcept_map_bind {α β γ : Type} (outcome : Except Fault α) (change : α → β)
    (next : β → Step γ) :
    (Step.ofExcept (outcome.map change) >>= next) =
      (Step.ofExcept outcome >>= fun result => next (change result)) := by
  cases outcome <;> rfl

mutual

theorem lower_annotate (chosen : context.types.HasDefault default) (others : TypeNames) :
    (expression : Expression) →
    (expression.annotate default).lower (context.annotate default others) =
      expression.lower context
  | .identifier name => by
      rw [Expression.annotate, Expression.lower, Expression.lower]
  | .literal literal => by
      rw [Expression.annotate, Expression.lower, Expression.lower]
      exact lower_literal_annotate chosen others literal
  | .call callee arguments => by
      rw [Expression.annotate, Expression.lower, Expression.lower, resolveCall_annotate,
        ofExcept_map_bind, lowerEach_annotate chosen others arguments]
      simp only [invokeWith_annotate chosen others]
  | .instructionCall mnemonic arguments => by
      rw [Expression.annotate, Expression.lower, Expression.lower]
  | .instruction mnemonic => by
      rw [Expression.annotate, Expression.lower, Expression.lower]

theorem lowerEach_annotate (chosen : context.types.HasDefault default) (others : TypeNames) :
    (arguments : List Expression) →
    Expression.lowerEach (context.annotate default others)
        (Expression.annotateEach default arguments) =
      Expression.lowerEach context arguments
  | [] => by
      rw [Expression.annotateEach, Expression.lowerEach, Expression.lowerEach]
  | argument :: rest => by
      rw [Expression.annotateEach, Expression.lowerEach, Expression.lowerEach,
        lower_annotate chosen others argument, lowerEach_annotate chosen others rest]

end

theorem invoke_annotate (chosen : context.types.HasDefault default) (others : TypeNames)
    (target : Target) (arguments : List Expression) :
    (target.annotate default).invoke (context.annotate default others)
        (Expression.annotateEach default arguments) =
      target.invoke context arguments := by
  rw [Target.invoke, Target.invoke, lowerEach_annotate chosen others,
    invokeWith_annotate chosen others]

theorem perform_annotate (chosen : context.types.HasDefault default) (others : TypeNames)
    (expression : Expression) :
    (expression.annotate default).perform (context.annotate default others) =
      expression.perform context := by
  have evaluates := lower_annotate chosen others expression
  cases expression with
  | call callee arguments =>
      rw [Expression.annotate, Expression.perform, Expression.perform, resolveCall_annotate,
        ofExcept_map_bind]
      simp only [invoke_annotate chosen others]
  | identifier | literal | instructionCall | instruction =>
      rw [Expression.annotate] at evaluates ⊢
      rw [Expression.perform, Expression.perform, evaluates]
      · rintro _ _ ⟨⟩
      · rintro _ _ ⟨⟩

theorem lowerToCondition_annotate (chosen : context.types.HasDefault default) (others : TypeNames)
    (expression : Expression) :
    (expression.annotate default).lowerToCondition (context.annotate default others) =
      expression.lowerToCondition context := by
  rw [Expression.lowerToCondition, Expression.lowerToCondition, lower_annotate chosen others]

/-! ## Statements -/

theorem declareAll_annotate (chosen : context.types.HasDefault default) (others : TypeNames)
    (declared : List TypedName) :
    declareAll (context.annotate default others) (declared.map (TypedName.annotate default)) =
      declareAll context declared := by
  induction declared with
  | nil => rfl
  | cons target rest ih =>
      obtain ⟨name, typeName⟩ := target
      have sameType : (context.annotate default others).types.resolve (orDefault default typeName) =
          context.types.resolve typeName := chosen.resolve_orDefault others typeName
      rw [List.map_cons, TypedName.annotate, declareAll, declareAll, sameType, ih]

theorem resultCount_annotate (default : String) (target : Target) :
    (target.annotate default).resultCount = target.resultCount := by
  cases target with
  | builtin descriptor => exact List.length_map _
  | function signature => rfl

theorem assignResults_annotate (chosen : context.types.HasDefault default) (others : TypeNames)
    (first : Binding) (targets : List Binding) (callee : String) (arguments : List Expression) :
    assignResults (context.annotate default others) first targets callee
        (Expression.annotateEach default arguments) =
      assignResults context first targets callee arguments := by
  rw [assignResults, assignResults, resolveCall_annotate, ofExcept_map_bind]
  simp only [resultCount_annotate, invoke_annotate chosen others]

theorem assign_annotate (chosen : context.types.HasDefault default) (others : TypeNames)
    (targets : List Binding) (value : Expression) :
    assign (context.annotate default others) targets (value.annotate default) =
      assign context targets value := by
  match targets with
  | [] => rfl
  | [target] => rw [assign, assign, lower_annotate chosen others]
  | first :: second :: rest =>
      cases value with
      | call callee arguments =>
          exact assignResults_annotate chosen others first (second :: rest) callee arguments
      | identifier | literal | instructionCall | instruction => rfl

/-- The constant of an arm is read at the type of the scrutinee, so the name of its own type does not
matter. -/
theorem valueAt_annotate (default : String) (literal : Literal) (type : Ir.ValueType) :
    (literal.annotate default).valueAt type = literal.valueAt type := by
  obtain ⟨kind, spelling, typeName⟩ := literal
  cases kind <;> rfl

theorem newArms_annotate (default : String) (scrutinee : Ir.Value) (cases : List Case) :
    newArms scrutinee (Case.annotateEach default cases) = newArms scrutinee cases := by
  induction cases with
  | nil => rfl
  | cons case rest ih =>
      obtain ⟨value, body⟩ := case
      rw [Case.annotateEach]
      cases value with
      | none =>
          rw [Option.map_none, newArms, newArms, ih]
      | some literal =>
          rw [Option.map_some, newArms, newArms, ih]
          simp only [valueAt_annotate]

mutual

theorem statement_annotate (chosen : context.types.HasDefault default) (others : TypeNames) :
    (statement : Statement) →
    (statement.annotate default).lower (context.annotate default others) = statement.lower context
  | .block body => by
      rw [Statement.annotate, Statement.lower, Statement.lower,
        statements_annotate chosen others body]
  | .declaration declared initialiser => by
      rw [Statement.annotate, Statement.lower, Statement.lower, declareAll_annotate chosen others]
      cases initialiser with
      | none => rfl
      | some value =>
          simp only [Option.map_some, assign_annotate chosen others]
  | .assignment targets value => by
      rw [Statement.annotate, Statement.lower, Statement.lower]
      simp only [assign_annotate chosen others]
  | .expression expression => by
      rw [Statement.annotate, Statement.lower, Statement.lower, perform_annotate chosen others]
  | .conditional condition body => by
      rw [Statement.annotate, Statement.lower, Statement.lower,
        lowerToCondition_annotate chosen others, statements_annotate chosen others body]
  | .switch scrutinee cases => by
      rw [Statement.annotate, Statement.lower, Statement.lower, lower_annotate chosen others]
      simp only [newArms_annotate, arms_annotate chosen others cases]
  | .loop init condition step body => by
      rw [Statement.annotate, Statement.lower, Statement.lower, lowerToCondition_annotate chosen others,
        statements_annotate chosen others init, statements_annotate chosen others step,
        statements_annotate chosen others body]
  | .breakLoop => by rw [Statement.annotate, Statement.lower, Statement.lower]
  | .continueLoop => by rw [Statement.annotate, Statement.lower, Statement.lower]
  | .definition name parameters returns body => by
      rw [Statement.annotate, Statement.lower, Statement.lower]
  | .label name => by rw [Statement.annotate, Statement.lower, Statement.lower]
  | .stackAssignment target => by rw [Statement.annotate, Statement.lower, Statement.lower]

theorem statements_annotate (chosen : context.types.HasDefault default) (others : TypeNames) :
    (statements : List Statement) →
    Statement.lowerEach (context.annotate default others)
        (Statement.annotateEach default statements) =
      Statement.lowerEach context statements
  | [] => by rw [Statement.annotateEach, Statement.lowerEach, Statement.lowerEach]
  | statement :: rest => by
      rw [Statement.annotateEach, Statement.lowerEach, Statement.lowerEach,
        statement_annotate chosen others statement, statements_annotate chosen others rest]

theorem arms_annotate (chosen : context.types.HasDefault default) (others : TypeNames) :
    (cases : List Case) → (done : Ir.BlockId) → (blocks : List Ir.BlockId) →
    Case.lowerEach (context.annotate default others) done (Case.annotateEach default cases) blocks =
      Case.lowerEach context done cases blocks
  | [], done, blocks => by
      rw [Case.annotateEach, Case.lowerEach, Case.lowerEach]
      · rintro _ _ _ _ _ ⟨⟩
      · rintro _ _ _ _ _ ⟨⟩
  | ⟨value, body⟩ :: rest, done, [] => by
      rw [Case.annotateEach, Case.lowerEach, Case.lowerEach]
      · rintro _ _ _ _ _ _ ⟨⟩
      · rintro _ _ _ _ _ _ ⟨⟩
  | ⟨value, body⟩ :: rest, done, block :: blocks => by
      rw [Case.annotateEach, Case.lowerEach, Case.lowerEach, statements_annotate chosen others body,
        arms_annotate chosen others rest done blocks]

end

/-! ## Programs -/

theorem signature_annotate {types : TypeNames} (chosen : types.HasDefault default) (others : TypeNames)
    (id : Ir.FunctionId) (definition : Definition) :
    (definition.annotate default).signature others id = definition.signature types id := by
  rw [Definition.signature, Definition.signature, Definition.annotate,
    chosen.resolveAll_typedNames others, chosen.resolveAll_typedNames others]

theorem signatures_annotate {types : TypeNames} (chosen : types.HasDefault default)
    (others : TypeNames) (known : Signatures) (definitions : List Definition) :
    Definition.signatures others known (definitions.map (Definition.annotate default)) =
      Definition.signatures types known definitions := by
  induction definitions generalizing known with
  | nil => rfl
  | cons definition rest ih =>
      rw [List.map_cons, Definition.signatures, Definition.signatures,
        signature_annotate chosen others, Definition.name_annotate]
      simp only [ih]

theorem bindParameters_annotate (default : String) (declared : List TypedName)
    (values : List Ir.Value) :
    bindParameters (declared.map (TypedName.annotate default)) values =
      bindParameters declared values := by
  induction declared generalizing values with
  | nil => rfl
  | cons target rest ih =>
      cases values with
      | nil => rfl
      | cons value values =>
          rw [List.map_cons, TypedName.annotate, bindParameters, bindParameters, ih]

theorem bindReturns_annotate (default : String) (declared : List TypedName)
    (types : List Ir.ValueType) :
    bindReturns (declared.map (TypedName.annotate default)) types = bindReturns declared types := by
  induction declared generalizing types with
  | nil => rfl
  | cons target rest ih =>
      cases types with
      | nil => rfl
      | cons type types =>
          rw [List.map_cons, TypedName.annotate, bindReturns, bindReturns, ih]

theorem definition_annotate (chosen : context.types.HasDefault default) (others : TypeNames)
    (progress : Progress) (definition : Definition) :
    (definition.annotate default).lower (context.annotate default others) progress =
      definition.lower context progress := by
  have writes (signature : Signature) :
      (definition.annotate default).writeBody (context.annotate default others) signature =
        definition.writeBody context signature := by
    rw [Definition.writeBody, Definition.writeBody, Definition.annotate]
    simp only [bindParameters_annotate, bindReturns_annotate, statements_annotate chosen others]
  rw [Definition.lower, Definition.lower, Definition.name_annotate]
  simp only [writes]
  rfl

theorem definitions_annotate (chosen : context.types.HasDefault default) (others : TypeNames)
    (progress : Progress) (definitions : List Definition) :
    Definition.lowerEach (context.annotate default others) progress
        (definitions.map (Definition.annotate default)) =
      Definition.lowerEach context progress definitions := by
  induction definitions generalizing progress with
  | nil => rfl
  | cons definition rest ih =>
      rw [List.map_cons, Definition.lowerEach, Definition.lowerEach,
        definition_annotate chosen others, Definition.name_annotate]
      simp only [ih]

end Lowering

theorem Block.definitions_annotate (default : String) (program : Block) :
    (program.annotate default).definitions =
      program.definitions.map (List.map (Definition.annotate default)) := by
  induction program with
  | nil => rfl
  | cons statement rest ih =>
      cases statement with
      | definition name parameters returns body =>
          change Except.map _ (Block.annotate default rest).definitions = _
          rw [ih]
          rw [Block.definitions]
          cases Block.definitions rest <;> rfl
      | _ => rfl

/-- The default type is an abbreviation. A program whose types are all written out gives under any default
what the program with its empty names gives under the default that these stand for: the same module, or the
same error. -/
theorem Block.toModule_annotate {default : String} {types : Lowering.TypeNames}
    (isNamed : default ≠ "") (made : Lowering.TypeNames.ofDefaultName default = .ok types)
    (dialect : Dialect) (others : Lowering.TypeNames) (moduleName : String) (program : Block) :
    (program.annotate default).toModule (dialect.annotate default) others moduleName =
      program.toModule dialect types moduleName := by
  have chosen : types.HasDefault default :=
    ⟨by simpa using isNamed, made⟩
  have lowers (signatures : Lowering.Signatures) (definitions : List Definition) :
      Definition.lowerEach ⟨dialect.annotate default, others, signatures⟩ ⟨.empty, .empty moduleName⟩
          (definitions.map (Definition.annotate default)) =
        Definition.lowerEach ⟨dialect, types, signatures⟩ ⟨.empty, .empty moduleName⟩
          definitions := by
    have inContext : (⟨dialect, types, signatures⟩ : Lowering.Context).types.HasDefault default := chosen
    exact Lowering.definitions_annotate inContext others _ definitions
  let wrap (fault : Lowering.Fault) : Lowering.Error := ⟨none, fault⟩
  have goesOn (definitions : List Definition) (next : List Definition → Except Lowering.Error Ir.Module) :
      ((Except.ok definitions).mapError wrap >>= next) = next definitions := rfl
  have stops (fault : Lowering.Fault) (next : List Definition → Except Lowering.Error Ir.Module) :
      ((Except.error fault).mapError wrap >>= next) = .error (wrap fault) := rfl
  have mapped (definitions : List Definition) :
      Except.map (List.map (Definition.annotate default)) (Except.ok definitions : Except Lowering.Fault _) =
        .ok (definitions.map (Definition.annotate default)) := rfl
  have failed (fault : Lowering.Fault) :
      Except.map (List.map (Definition.annotate default)) (Except.error fault) = .error fault := rfl
  rw [Block.toModule, Block.toModule, Block.definitions_annotate]
  cases program.definitions with
  | error fault => rw [failed, stops, stops]
  | ok definitions =>
      rw [mapped, goesOn, goesOn, Lowering.signatures_annotate chosen others]
      simp only [lowers]

/-- A program that leaves some types open: those of a parameter, of a result, of a variable, of a truth value
and of the constants of a switch. -/
def halfTyped : Block :=
  [.definition "f" [⟨"a", ""⟩, ⟨"b", "u8"⟩] [⟨"r", ""⟩]
      [.declaration [⟨"x", ""⟩] (some (.call "mix" [.identifier "a", .identifier "b"])),
        .switch (.identifier "b")
          [⟨some ⟨.number, "1", ""⟩, [.assignment ["r"] (.identifier "x")]⟩,
            ⟨none, [.conditional (.literal ⟨.boolean, "true", ""⟩)
              [.assignment ["r"] (.literal ⟨.number, "7", ""⟩)]]⟩]]]

/-- A builtin whose first parameter and whose result have the default type. -/
def mixture : Dialect :=
  ⟨.strict, [.ofMovability "mix" ["", "u8"] [""] true false]⟩

theorem Block.toModule_annotate_halfTyped :
    Lowering.TypeNames.ofDefaultName "u64" = .ok ⟨.int 64⟩ ∧
      (halfTyped.toModule mixture ⟨.int 64⟩ "m").isOk = true ∧
      (halfTyped.annotate "u64").toModule (mixture.annotate "u64") .standard "m" =
        halfTyped.toModule mixture ⟨.int 64⟩ "m" := by
  have made : Lowering.TypeNames.ofDefaultName "u64" = .ok ⟨.int 64⟩ := rfl
  exact ⟨made, by decide +kernel,
    Block.toModule_annotate (by decide) made mixture .standard "m" halfTyped⟩

end YulLowering
