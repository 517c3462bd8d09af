import YulLowering.Proofs.Meaning.Source
import YulLowering.Proofs.Signatures

/-!
# What names and types mean in a source program

A name that is read means the latest visible variable of that name, and a name that is called means a
builtin if there is one, else a function of the program. Types follow from that. The lowering keeps these
meanings in its scope and in the signatures that it has collected, and this module relates the two.
-/

namespace YulLowering

/-- The visible variables with their types, the latest first. -/
abbrev Typing := List (String × Ir.ValueType)

namespace Typing

/-- Typing that are declared together, in order. -/
def declare (typing declared : Typing) : Typing :=
  declared.reverse ++ typing

/-- A name that is not declared keeps its meaning. -/
theorem lookup_declare {typing declared : Typing} {name : String}
    (absent : name ∉ declared.map Prod.fst) :
    (typing.declare declared).lookup name = typing.lookup name := by
  have hidden : declared.reverse.lookup name = none := by
    rw [List.lookup_eq_none_iff]
    intro pair member
    have differs : pair.1 ≠ name := by
      rintro rfl
      exact absent (List.mem_map_of_mem (List.mem_reverse.mp member))
    simpa using Ne.symm differs
  rw [declare, List.lookup_append, hidden, Option.none_or]

end Typing

namespace Lowering.TypeNames

/-- The type that a name stands for, or `void` if it stands for none. -/
def meaning (types : TypeNames) (name : String) : Ir.ValueType :=
  match types.resolve name with
  | .ok type => type
  | .error _ => .void

/-- Declared names with their types. -/
def typed (types : TypeNames) (declared : List TypedName) : Typing :=
  declared.map fun target => (target.name, types.meaning target.typeName)

variable {types : TypeNames}

theorem meaning_of_resolve {name : String} {type : Ir.ValueType}
    (resolved : types.resolve name = .ok type) : types.meaning name = type := by
  rw [meaning, resolved]

theorem map_meaning_of_resolveAll {names : List String} {resolved : List Ir.ValueType}
    (success : types.resolveAll names = .ok resolved) : names.map types.meaning = resolved := by
  rw [← List.forall₂_eq_eq_eq, List.forall₂_map_left_iff]
  exact (mapM_ok_inv success).imp fun _ _ => meaning_of_resolve

@[simp] theorem map_fst_typed (declared : List TypedName) :
    (types.typed declared).map Prod.fst = declared.map TypedName.name := by
  simp [typed]

/-- Where the default type is chosen by name, no type is `void`. -/
theorem resolve_ne_void {default name : String} {type : Ir.ValueType}
    (made : ofDefaultName default = .ok types) (resolved : types.resolve name = .ok type) :
    type ≠ .void := by
  have valued : ∀ entry ∈ catalog, entry.2 ≠ .void := by decide
  have untyped_standard : standard.untyped ≠ .void := by decide
  have named {types : TypeNames} {name : String} {type : Ir.ValueType} (untyped : types.untyped ≠ .void)
      (resolved : types.resolve name = .ok type) : type ≠ .void := by
    unfold resolve at resolved
    split at resolved
    · cases resolved
      exact untyped
    · split at resolved
      · next found =>
        cases resolved
        obtain ⟨before, after, isCatalog, -⟩ := List.lookup_eq_some_iff.mp found
        exact valued (name, _) (by rw [isCatalog]; simp)
      · cases resolved
  obtain ⟨untyped, chosen, made⟩ := bind_ok_inv made
  cases made
  exact named (named untyped_standard chosen) resolved

end Lowering.TypeNames

/-! ## Calls -/

/-- What a called name can mean. -/
inductive Callable where
  | builtin (builtin : Builtin)
  | function (definition : Definition)

namespace Callable

/-- The type names of the parameters. -/
def parameters : Callable → List String
  | .builtin descriptor => descriptor.parameters
  | .function definition => definition.parameters.map TypedName.typeName

/-- The type names of the results. -/
def results : Callable → List String
  | .builtin descriptor => descriptor.results
  | .function definition => definition.returns.map TypedName.typeName

end Callable

/-- What names other than those of variables mean: the builtins, the types and the functions of the
program. -/
structure Surroundings where
  dialect : Dialect
  types : Lowering.TypeNames
  definitions : List Definition

namespace Surroundings

variable (surroundings : Surroundings)

/-- What a called name means: a builtin if there is one, else a function of the program. -/
def callable? (name : String) : Option Callable :=
  match surroundings.dialect.lookup name with
  | some builtin => some (.builtin builtin)
  | none =>
    (surroundings.definitions.find? fun definition => definition.name == name).map .function

/-- The types of the parameters of what is called. -/
def parameters? (name : String) : Option (List Ir.ValueType) :=
  (surroundings.callable? name).map fun callable =>
    callable.parameters.map surroundings.types.meaning

/-- The types of the results of what is called. -/
def results? (name : String) : Option (List Ir.ValueType) :=
  (surroundings.callable? name).map fun callable => callable.results.map surroundings.types.meaning

/-- The type of a literal. An untyped truth value is a condition. -/
def literalType (literal : Literal) : Ir.ValueType :=
  if literal.typeName.isEmpty ∧ literal.kind = .boolean then .bool
  else surroundings.types.meaning literal.typeName

end Surroundings

/-- The type of the one value of an expression, if it has one. -/
def Expression.type? (surroundings : Surroundings) (typing : Typing) :
    Expression → Option Ir.ValueType
  | .identifier name => typing.lookup name
  | .literal written => some (surroundings.literalType written)
  | .call callee _ =>
    match surroundings.results? callee with
    | some [type] => some type
    | _ => none
  | .instructionCall _ _ => none
  | .instruction _ => none

/-- The type of an expression only depends on the variables that it mentions. -/
theorem Expression.type?_congr (surroundings : Surroundings) {first second : Typing}
    {expression : Expression}
    (same : ∀ name, expression.mentions name = true → first.lookup name = second.lookup name) :
    expression.type? surroundings first = expression.type? surroundings second := by
  cases expression with
  | identifier name => exact same name (by simp [Expression.mentions])
  | literal | call | instructionCall | instruction => rfl

/-- The variables that are visible after a statement, if those in front of it are given. -/
def Statement.declare (types : Lowering.TypeNames) (typing : Typing) : Statement → Typing
  | .declaration declared _ => typing.declare (types.typed declared)
  | _ => typing

/-- The variables that are visible after several statements. -/
def Statement.declareEach (types : Lowering.TypeNames) (typing : Typing)
    (statements : List Statement) : Typing :=
  statements.foldl (Statement.declare types) typing

/-- Whether no initialiser in the body of a function reads a name that its own declaration introduces. -/
def Definition.initialisesApart (definition : Definition) : Bool :=
  Statement.areProper (fun _ => none) true definition.body

/-- The variables that are visible where the body of a function starts. -/
def Definition.typing (types : Lowering.TypeNames) (definition : Definition) : Typing :=
  (Typing.declare [] (types.typed definition.parameters)).declare (types.typed definition.returns)

namespace Lowering

/-! ## Scopes -/

/-- The visible variables as a scope has them. -/
def Scope.typing (scope : Scope) : Typing :=
  (scope.bindings.map fun binding => (binding.name, binding.type)).reverse

theorem Scope.lookup_typing (scope : Scope) (name : String) :
    scope.typing.lookup name = (scope.lookup name).map Binding.type := by
  unfold typing lookup
  rw [← List.map_reverse]
  induction scope.bindings.reverse with
  | nil => rfl
  | cons binding rest ih =>
      rw [List.map_cons, List.lookup_cons, List.find?_cons]
      by_cases named : binding.name = name
      · subst named
        simp
      · have reversed : (name == binding.name) = false := by simpa using Ne.symm named
        have differs : (binding.name == name) = false := by simpa using named
        rw [reversed, differs]
        exact ih

theorem Scope.typing_append {scope later : Scope} {more : List Binding}
    (appended : later.bindings = scope.bindings ++ more) :
    later.typing =
      scope.typing.declare (more.map fun binding => (binding.name, binding.type)) := by
  rw [typing, appended, List.map_append, List.reverse_append]
  rfl

/-! ## Signatures -/

/-- A call has been resolved to what its name means. -/
inductive Target.Means (types : TypeNames) : Target → Callable → Prop where
  | builtin (builtin : Builtin) : Means types (.builtin builtin) (.builtin builtin)
  | function {index : Nat} {definition : Definition} {signature : Signature}
      (describes : Describes types index definition signature) :
      Means types (.function signature) (.function definition)

/-- The signatures that have been collected are those of the definitions of the program. -/
structure Context.Reflects (context : Context) (surroundings : Surroundings) : Prop where
  dialect : context.dialect = surroundings.dialect
  types : context.types = surroundings.types
  found : ∀ name definition,
    (surroundings.definitions.find? fun other => other.name == name) = some definition →
      ∃ index signature, context.signatures.lookup name = some signature ∧
        Describes surroundings.types index definition signature
  missing : ∀ name,
    (surroundings.definitions.find? fun other => other.name == name) = none →
      context.signatures.lookup name = none

namespace Context.Reflects

variable {context : Context} {surroundings : Surroundings}

/-- A call is resolved if its name means something, and then to what it means. -/
theorem resolveCall (reflects : context.Reflects surroundings) (name : String) :
    match surroundings.callable? name with
    | some callable => ∃ target, context.resolveCall name = .ok target ∧
        target.Means surroundings.types callable
    | none => context.resolveCall name = .error (.undeclaredName name) := by
  unfold Context.resolveCall Surroundings.callable?
  rw [reflects.dialect]
  cases surroundings.dialect.lookup name with
  | some builtin => exact ⟨_, rfl, .builtin builtin⟩
  | none =>
      cases isDefined : surroundings.definitions.find? fun other => other.name == name with
      | none =>
          rw [reflects.missing name isDefined]
          rfl
      | some definition =>
          obtain ⟨index, signature, found, describes⟩ := reflects.found name definition isDefined
          rw [found]
          exact ⟨_, rfl, .function describes⟩

theorem callable_of_resolveCall (reflects : context.Reflects surroundings) {name : String}
    {target : Target} (resolved : context.resolveCall name = .ok target) :
    ∃ callable, surroundings.callable? name = some callable ∧
      target.Means surroundings.types callable := by
  have meaning := reflects.resolveCall name
  cases isCallable : surroundings.callable? name with
  | none =>
      rw [isCallable, resolved] at meaning
      cases meaning
  | some callable =>
      rw [isCallable, resolved] at meaning
      obtain ⟨other, same, means⟩ := meaning
      cases same
      exact ⟨callable, rfl, means⟩

end Context.Reflects

theorem map_name_of_describes {types : TypeNames} {definitions : List Definition}
    {signatures : List Signature} {first : Nat}
    (describe : List.Forall₂ (fun pair signature => Describes types pair.2 pair.1 signature)
      (definitions.zipIdx first) signatures) :
    signatures.map Signature.name = definitions.map Definition.name := by
  induction definitions generalizing first signatures with
  | nil =>
      cases describe
      rfl
  | cons definition rest ih =>
      rw [List.zipIdx_cons] at describe
      cases describe with
      | cons describes others => rw [List.map_cons, List.map_cons, describes.name, ih others]

/-- Where names are distinct, the collected signatures are those of the definitions. -/
theorem reflects_of_signatures {dialect : Dialect} {types : TypeNames} {definitions : List Definition}
    {signatures : Signatures} (distinct : (definitions.map Definition.name).Nodup)
    (collected : Definition.signatures types .empty definitions = .ok signatures) :
    Context.Reflects ⟨dialect, types, signatures⟩ ⟨dialect, types, definitions⟩ := by
  obtain ⟨added, areAll, describe⟩ := signatures_inv collected
  obtain rfl : signatures.all = added := areAll
  have names := map_name_of_describes describe
  constructor
  case dialect => rfl
  case types => rfl
  case found =>
    intro name definition found
    obtain ⟨index, bound, rfl⟩ := List.mem_iff_getElem.mp (List.mem_of_find?_eq_some found)
    have named : definitions[index].name = name := by simpa using List.find?_some found
    have lengths := describe.length_eq
    rw [List.length_zipIdx] at lengths
    have describes := describe.get (by simpa using bound) (lengths ▸ bound)
    rw [List.get_eq_getElem, List.get_eq_getElem, List.getElem_zipIdx] at describes
    have own := lookup_of_mem (by rwa [names]) (List.getElem_mem (lengths ▸ bound))
    rw [describes.name, named] at own
    exact ⟨_, _, own, describes⟩
  case missing =>
    intro name absent
    cases found : signatures.lookup name with
    | none => rfl
    | some signature =>
        obtain ⟨member, named⟩ := mem_of_lookup found
        have isName := List.mem_map_of_mem (f := Signature.name) member
        rw [names, named] at isName
        obtain ⟨definition, isDefinition, same⟩ := List.mem_map.mp isName
        rw [List.find?_eq_none] at absent
        exact absurd same (by simpa using absent definition isDefinition)

end Lowering

end YulLowering
