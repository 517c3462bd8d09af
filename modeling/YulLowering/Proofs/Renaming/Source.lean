import Mathlib.Data.List.Forall2
import YulLowering.Proofs.Meaning.Source

/-!
# Programs that differ in the names of variables

A variable has a name of its own in each of two programs, and the two names mean the same as far as the
variable is visible. Inner declarations hide outer ones, so a program may reuse a name where another one has
several. Names that no visible variable has are the same in both programs, and so is all the rest.
-/

namespace YulLowering

/-- The visible variables of two programs, each by its two names, the innermost first. -/
abbrev Renaming := List (String × String)

namespace Renaming

/-- Two names mean the same: the same variable, or none. -/
inductive Means : Renaming → String → String → Prop where
  | free (name : String) : Means [] name name
  | here (name other : String) (rest : Renaming) : Means ((name, other) :: rest) name other
  | there {name other first second : String} {rest : Renaming} (differs : first ≠ name)
      (otherDiffers : second ≠ other) (means : Means rest first second) :
      Means ((name, other) :: rest) first second

/-- Declare variables in both programs, in order. -/
def declare (visible : Renaming) : List TypedName → List TypedName → Renaming
  | target :: rest, other :: others => declare ((target.name, other.name) :: visible) rest others
  | _, _ => visible

/-- Names that are not declared mean what they have meant. -/
theorem Means.declare {visible : Renaming} {declared others : List TypedName} {name other : String}
    (means : visible.Means name other) (absent : name ∉ declared.map TypedName.name)
    (otherAbsent : other ∉ others.map TypedName.name) :
    (visible.declare declared others).Means name other := by
  induction declared generalizing visible others with
  | nil => exact means
  | cons target rest ih =>
      cases others with
      | nil => exact means
      | cons otherTarget others =>
          rw [List.map_cons, List.mem_cons, not_or] at absent otherAbsent
          exact ih (.there absent.1 otherAbsent.1 means) absent.2 otherAbsent.2

end Renaming

/-- Declared names with the same types. -/
def TypedName.SameTypes (declared others : List TypedName) : Prop :=
  declared.map TypedName.typeName = others.map TypedName.typeName

mutual

/-- Expressions that read the same variables. -/
inductive Expression.Renamed (visible : Renaming) : Expression → Expression → Prop where
  | identifier {name other : String} (means : visible.Means name other) :
      Expression.Renamed visible (.identifier name) (.identifier other)
  | literal (literal : Literal) : Expression.Renamed visible (.literal literal) (.literal literal)
  | call (callee : String) {arguments others : List Expression}
      (each : Expression.RenamedEach visible arguments others) :
      Expression.Renamed visible (.call callee arguments) (.call callee others)
  | instructionCall (mnemonic : String) {arguments others : List Expression}
      (each : Expression.RenamedEach visible arguments others) :
      Expression.Renamed visible (.instructionCall mnemonic arguments)
        (.instructionCall mnemonic others)
  | instruction (mnemonic : String) :
      Expression.Renamed visible (.instruction mnemonic) (.instruction mnemonic)

/-- Lists of expressions that read the same variables. -/
inductive Expression.RenamedEach (visible : Renaming) : List Expression → List Expression → Prop where
  | nil : Expression.RenamedEach visible [] []
  | cons {argument other : Expression} {rest others : List Expression}
      (first : Expression.Renamed visible argument other)
      (each : Expression.RenamedEach visible rest others) :
      Expression.RenamedEach visible (argument :: rest) (other :: others)

end

mutual

/-- Statements that differ in the names of variables. The first list has the
variables that are visible in front of the statements, the second those that are visible after them. -/
inductive Statement.Renamed : Renaming → Statement → Statement → Renaming → Prop where
  | block {visible inner : Renaming} {body other : List Statement}
      (inside : Statement.RenamedEach visible body other inner) :
      Statement.Renamed visible (.block body) (.block other) visible
  | declaration {visible : Renaming} {declared others : List TypedName}
      (sameTypes : TypedName.SameTypes declared others) :
      Statement.Renamed visible (.declaration declared none) (.declaration others none)
        (visible.declare declared others)
  -- The variables of a declaration are not visible in its initialiser yet.
  | initialised {visible : Renaming} {declared others : List TypedName} {value other : Expression}
      (sameTypes : TypedName.SameTypes declared others) (values : value.Renamed visible other) :
      Statement.Renamed visible (.declaration declared (some value))
        (.declaration others (some other)) (visible.declare declared others)
  | assignment {visible : Renaming} {targets others : List String} {value other : Expression}
      (means : List.Forall₂ visible.Means targets others) (values : value.Renamed visible other) :
      Statement.Renamed visible (.assignment targets value) (.assignment others other) visible
  | expression {visible : Renaming} {expression other : Expression}
      (expressions : expression.Renamed visible other) :
      Statement.Renamed visible (.expression expression) (.expression other) visible
  | conditional {visible inner : Renaming} {condition other : Expression}
      {body otherBody : List Statement} (conditions : condition.Renamed visible other)
      (inside : Statement.RenamedEach visible body otherBody inner) :
      Statement.Renamed visible (.conditional condition body) (.conditional other otherBody) visible
  | switch {visible : Renaming} {scrutinee other : Expression} {cases others : List Case}
      (scrutinees : scrutinee.Renamed visible other) (arms : Case.RenamedEach visible cases others) :
      Statement.Renamed visible (.switch scrutinee cases) (.switch other others) visible
  -- The variables of the first part are visible in all the others, and no others are.
  | loop {visible begun afterStep afterBody : Renaming} {condition other : Expression}
      {init otherInit step otherStep body otherBody : List Statement}
      (begins : Statement.RenamedEach visible init otherInit begun)
      (conditions : condition.Renamed begun other)
      (advances : Statement.RenamedEach begun step otherStep afterStep)
      (inside : Statement.RenamedEach begun body otherBody afterBody) :
      Statement.Renamed visible (.loop init condition step body)
        (.loop otherInit other otherStep otherBody) visible
  | breakLoop (visible : Renaming) : Statement.Renamed visible .breakLoop .breakLoop visible
  | continueLoop (visible : Renaming) :
      Statement.Renamed visible .continueLoop .continueLoop visible
  -- A function sees no variables from outside.
  | definition {visible inner : Renaming} (name : String)
      {parameters otherParameters returns otherReturns : List TypedName}
      {body other : List Statement} (sameParameters : TypedName.SameTypes parameters otherParameters)
      (sameReturns : TypedName.SameTypes returns otherReturns)
      (inside : Statement.RenamedEach
        ((Renaming.declare [] parameters otherParameters).declare returns otherReturns)
        body other inner) :
      Statement.Renamed visible (.definition name parameters returns body)
        (.definition name otherParameters otherReturns other) visible
  | label {visible : Renaming} (name : String) :
      Statement.Renamed visible (.label name) (.label name) visible
  | stackAssignment {visible : Renaming} {target other : String} (means : visible.Means target other) :
      Statement.Renamed visible (.stackAssignment target) (.stackAssignment other) visible

/-- Lists of statements that differ in the names of variables. -/
inductive Statement.RenamedEach : Renaming → List Statement → List Statement → Renaming → Prop where
  | nil (visible : Renaming) : Statement.RenamedEach visible [] [] visible
  | cons {visible middle later : Renaming} {statement other : Statement}
      {rest others : List Statement} (first : Statement.Renamed visible statement other middle)
      (each : Statement.RenamedEach middle rest others later) :
      Statement.RenamedEach visible (statement :: rest) (other :: others) later

/-- Arms of a switch that differ in the names of variables. -/
inductive Case.RenamedEach : Renaming → List Case → List Case → Prop where
  | nil (visible : Renaming) : Case.RenamedEach visible [] []
  | cons {visible inner : Renaming} (value : Option Literal) {body other : List Statement}
      {rest others : List Case} (inside : Statement.RenamedEach visible body other inner)
      (each : Case.RenamedEach visible rest others) :
      Case.RenamedEach visible (⟨value, body⟩ :: rest) (⟨value, other⟩ :: others)

end

/-- Definitions that differ in the names of variables. -/
structure Definition.Renamed (definition other : Definition) : Prop where
  name : definition.name = other.name
  parameters : TypedName.SameTypes definition.parameters other.parameters
  returns : TypedName.SameTypes definition.returns other.returns
  body : ∃ inner, Statement.RenamedEach
    ((Renaming.declare [] definition.parameters other.parameters).declare definition.returns
      other.returns) definition.body other.body inner

/-- Programs that differ in the names of variables. -/
def Block.Renamed (program other : Block) : Prop :=
  ∃ later, Statement.RenamedEach [] program other later

/-! ## Initialisers -/

mutual

/-- An expression that mentions none of the declared names means after the declaration what it has meant in
front of it. -/
theorem Expression.Renamed.declare {visible : Renaming} {declared others : List TypedName}
    {expression other : Expression} (renamed : expression.Renamed visible other)
    (apart : ∀ target ∈ declared, expression.mentions target.name = false)
    (otherApart : ∀ target ∈ others, other.mentions target.name = false) :
    expression.Renamed (visible.declare declared others) other := by
  cases renamed with
  | @identifier name other means =>
      refine .identifier (means.declare ?_ ?_)
      · intro isName
        obtain ⟨target, isTarget, rfl⟩ := List.mem_map.mp isName
        simpa [Expression.mentions] using apart target isTarget
      · intro isName
        obtain ⟨target, isTarget, rfl⟩ := List.mem_map.mp isName
        simpa [Expression.mentions] using otherApart target isTarget
  | literal literal => exact .literal literal
  | call callee each => exact .call callee (each.declare apart otherApart)
  | instructionCall mnemonic each => exact .instructionCall mnemonic (each.declare apart otherApart)
  | instruction mnemonic => exact .instruction mnemonic

theorem Expression.RenamedEach.declare {visible : Renaming} {declared others : List TypedName}
    {arguments otherArguments : List Expression}
    (each : Expression.RenamedEach visible arguments otherArguments)
    (apart : ∀ target ∈ declared, Expression.mentionsAny target.name arguments = false)
    (otherApart : ∀ target ∈ others, Expression.mentionsAny target.name otherArguments = false) :
    Expression.RenamedEach (visible.declare declared others) arguments otherArguments := by
  cases each with
  | nil => exact .nil
  | cons first rest =>
      simp only [Expression.mentionsAny, Bool.or_eq_false_iff] at apart otherApart
      exact .cons (first.declare (fun target isTarget => (apart target isTarget).1)
          fun target isTarget => (otherApart target isTarget).1)
        (rest.declare (fun target isTarget => (apart target isTarget).2)
          fun target isTarget => (otherApart target isTarget).2)

end

end YulLowering
