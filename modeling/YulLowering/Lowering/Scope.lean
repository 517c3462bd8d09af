import YulLowering.Ir.Draft

/-!
# Scopes

Every declaration gets a slot of its own, also where it reuses a name. A name means its most recent
declaration among those whose block is still open; closing a block hides its declarations and leaves
their slots in place.
-/

namespace YulLowering.Lowering

/-- A visible declaration. -/
structure Binding where
  name : String
  slot : Ir.LocalId
  type : Ir.ValueType
deriving DecidableEq, Repr, Inhabited

/-- The visible declarations, oldest first. For each open block, the innermost first, `openings` has
the number of declarations that were visible when it was opened. -/
structure Scope where
  bindings : List Binding
  openings : List Nat
deriving DecidableEq, Repr, Inhabited

namespace Scope

/-- The scope of a function's outermost level, without declarations. -/
def empty : Scope :=
  ⟨[], []⟩

/-- Make a declaration visible. -/
def bind (scope : Scope) (binding : Binding) : Scope :=
  { scope with bindings := scope.bindings ++ [binding] }

/-- Declare a variable: reserve a slot and make it visible. -/
def declare (scope : Scope) (draft : Ir.Draft) (name : String) (type : Ir.ValueType) :
    Ir.LocalId × Scope × Ir.Draft :=
  let (slot, draft) := draft.reserve name type
  (slot, scope.bind ⟨name, slot, type⟩, draft)

/-- The most recent visible declaration of a name. -/
def lookup (scope : Scope) (name : String) : Option Binding :=
  scope.bindings.reverse.find? fun binding => binding.name == name

/-- Open a block. -/
def enter (scope : Scope) : Scope :=
  { scope with openings := scope.bindings.length :: scope.openings }

/-- Close the innermost open block, if there is one. -/
def leave (scope : Scope) : Scope :=
  match scope.openings with
  | [] => scope
  | opening :: openings => ⟨scope.bindings.take opening, openings⟩

/-- Closing a block undoes opening it. -/
@[simp] theorem leave_enter (scope : Scope) : scope.enter.leave = scope := by
  simp [enter, leave]

/-- The latest declaration of a name hides earlier ones of that name and no others. -/
theorem lookup_bind (scope : Scope) (binding : Binding) (name : String) :
    (scope.bind binding).lookup name =
      if binding.name == name then some binding else scope.lookup name := by
  simp only [lookup, bind, List.reverse_append, List.reverse_singleton, List.singleton_append,
    List.find?_cons]
  split <;> simp_all

/-- What a name means is a visible declaration of that name. -/
theorem mem_of_lookup {scope : Scope} {name : String} {binding : Binding}
    (found : scope.lookup name = some binding) :
    binding ∈ scope.bindings ∧ binding.name = name := by
  unfold lookup at found
  exact ⟨List.mem_reverse.mp (List.mem_of_find?_eq_some found),
    by simpa using List.find?_some found⟩

/-- The number of visible declarations. -/
def size (scope : Scope) : Nat :=
  scope.bindings.length

end Scope

end YulLowering.Lowering
