/-!
# Syntax trees of structured Yul

The tree that an analyzer hands to the back end: nested blocks of statements over expressions whose
calls are not yet resolved. Type names are plain text; the empty name leaves the choice to the
back end. Two kinds of statement (labels and stack assignments) and two kinds of expression (raw
instructions) belong to looser flavours of the language and are kept so that a tree holding them
can be read and reported on.
-/

namespace YulLowering

/-- A declared name with its type name, empty when untyped. -/
structure TypedName where
  name : String
  typeName : String
deriving DecidableEq, Repr, Inhabited

/-- The three spellings a literal can have. -/
inductive LiteralKind where
  | number
  | boolean
  | string
deriving DecidableEq, Repr, Inhabited

/-- A literal as written: digits, `true` or `false`, or the contents of a string. -/
structure Literal where
  kind : LiteralKind
  spelling : String
  typeName : String
deriving DecidableEq, Repr, Inhabited

namespace Literal

/-- A number of a given type. -/
def number (spelling typeName : String) : Literal :=
  ⟨.number, spelling, typeName⟩

/-- A truth value, always of type `bool`. -/
def boolean (value : Bool) : Literal :=
  ⟨.boolean, if value then "true" else "false", "bool"⟩

/-- An untyped string. -/
def string (contents : String) : Literal :=
  ⟨.string, contents, ""⟩

end Literal

/-- Expressions; calls name their callee without saying whether it is a builtin. -/
inductive Expression where
  | identifier (name : String)
  | literal (literal : Literal)
  | call (callee : String) (arguments : List Expression)
  /-- A raw machine instruction applied to arguments. -/
  | instructionCall (mnemonic : String) (arguments : List Expression)
  /-- A raw machine instruction by itself. -/
  | instruction (mnemonic : String)
deriving Repr, Inhabited

namespace Expression

/-- A number literal as an expression. -/
def number (spelling typeName : String) : Expression :=
  .literal (.number spelling typeName)

end Expression

mutual

/-- Statements. A block, a loop part and a function body are lists of them. -/
inductive Statement where
  | block (body : List Statement)
  | declaration (declared : List TypedName) (initialiser : Option Expression)
  | assignment (targets : List String) (value : Expression)
  | expression (expression : Expression)
  | conditional (condition : Expression) (body : List Statement)
  | switch (scrutinee : Expression) (cases : List Case)
  /-- The names of `init` stay visible in the condition, the step and the body. -/
  | loop (init : List Statement) (condition : Expression) (step body : List Statement)
  | breakLoop
  | continueLoop
  | definition (name : String) (parameters returns : List TypedName) (body : List Statement)
  | label (name : String)
  | stackAssignment (target : String)

/-- One arm of a switch; the default arm has no value. -/
structure Case where
  value : Option Literal
  body : List Statement

end

/-- A braced sequence of statements; a program is a block of function definitions. -/
abbrev Block := List Statement

/-- A function definition taken out of the block it stands in. -/
structure Definition where
  name : String
  parameters : List TypedName
  returns : List TypedName
  body : Block

namespace Statement

/-- The kinds of statement, as diagnostics name them. -/
inductive Kind where
  | block
  | declaration
  | assignment
  | expression
  | conditional
  | switch
  | loop
  | breakLoop
  | continueLoop
  | definition
  | label
  | stackAssignment
deriving DecidableEq, Repr, Inhabited

/-- The kind of a statement. -/
def kind : Statement → Kind
  | block _ => .block
  | declaration _ _ => .declaration
  | assignment _ _ => .assignment
  | expression _ => .expression
  | conditional _ _ => .conditional
  | switch _ _ => .switch
  | loop _ _ _ _ => .loop
  | breakLoop => .breakLoop
  | continueLoop => .continueLoop
  | definition _ _ _ _ => .definition
  | label _ => .label
  | stackAssignment _ => .stackAssignment

/-- The words a diagnostic uses for a kind of statement. -/
def Kind.words : Kind → String
  | .block => "block"
  | .declaration => "variable declaration"
  | .assignment => "assignment"
  | .expression => "expression statement"
  | .conditional => "if"
  | .switch => "switch"
  | .loop => "for loop"
  | .breakLoop => "break"
  | .continueLoop => "continue"
  | .definition => "function definition"
  | .label => "label"
  | .stackAssignment => "stack assignment"

end Statement

end YulLowering
