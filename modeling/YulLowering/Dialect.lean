import YulLowering.Dialect.Builtin

/-!
# Dialects

A dialect is the catalog of builtins of one target. Calls are resolved against it before the
program's own functions. Names are unique: registering a name again replaces the descriptor and
keeps its place.
-/

namespace YulLowering

/-- Which flavour of the source language a dialect belongs to. -/
inductive Flavour where
  /-- Untyped, with raw instructions. -/
  | loose
  /-- Raw instructions only. -/
  | instructional
  /-- Typed and structured. -/
  | strict
deriving DecidableEq, Repr, Inhabited

/-- The name of a flavour. -/
def Flavour.text : Flavour → String
  | .loose => "Loose"
  | .instructional => "Instructional"
  | .strict => "Strict"

/-- A catalog of builtins in the order of their first registration. -/
structure Dialect where
  flavour : Flavour
  builtins : List Builtin
deriving DecidableEq, Repr, Inhabited

namespace Dialect

/-- A catalog without builtins. -/
def empty (flavour : Flavour) : Dialect :=
  ⟨flavour, []⟩

/-- The descriptor of a builtin. -/
def lookup (dialect : Dialect) (name : String) : Option Builtin :=
  dialect.builtins.find? fun builtin => builtin.name == name

/-- Register a builtin, in place of the one of that name if there is one. -/
def register (dialect : Dialect) (builtin : Builtin) : Dialect :=
  match dialect.lookup builtin.name with
  | some _ =>
    { dialect with
      builtins := dialect.builtins.map fun other =>
        if other.name == builtin.name then builtin else other }
  | none => { dialect with builtins := dialect.builtins ++ [builtin] }

/-- The last registration of a name decides what it means. -/
theorem lookup_register (dialect : Dialect) (builtin : Builtin) (name : String) :
    (dialect.register builtin).lookup name =
      if builtin.name = name then some builtin else dialect.lookup name := by
  unfold register
  cases found : dialect.lookup builtin.name with
  | none =>
    simp only [lookup, List.find?_append, List.find?_singleton, beq_iff_eq] at found ⊢
    by_cases equal : builtin.name = name
    · subst equal
      simp [found]
    · simp [equal]
  | some old =>
    simp only [lookup, List.find?_map] at found ⊢
    by_cases equal : builtin.name = name
    · subst equal
      have same : ((fun other : Builtin => other.name == builtin.name) ∘ fun other =>
          if other.name == builtin.name then builtin else other) =
          fun other => other.name == builtin.name := by
        funext other
        by_cases named : other.name = builtin.name <;> simp [named]
      have named := List.find?_some found
      rw [same, found]
      simp_all
    · have same : ((fun other : Builtin => other.name == name) ∘ fun other =>
          if other.name == builtin.name then builtin else other) =
          fun other => other.name == name := by
        funext other
        by_cases named : other.name = builtin.name <;> simp [named]
      rw [same, if_neg equal]
      cases kept : dialect.builtins.find? fun other => other.name == name with
      | none => rfl
      | some other =>
        have named := List.find?_some kept
        have differs : other.name ≠ builtin.name := by
          intro clash
          exact equal (clash.symm.trans (by simpa using named))
        simp [differs]

/-- Register builtins in order. -/
def registerAll (dialect : Dialect) (builtins : List Builtin) : Dialect :=
  builtins.foldl register dialect

/-- The number of builtins. -/
def size (dialect : Dialect) : Nat :=
  dialect.builtins.length

end Dialect

end YulLowering
