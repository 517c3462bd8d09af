/-!
# Values and slots

The intermediate representation has integers of fixed width and nothing else. Signedness is a
property of operations, so the signed and unsigned source types of one width share a type here.
A value is the single result of an instruction; a slot is a place in memory, either local to one
function or shared by the whole module.
-/

namespace YulLowering.Ir

/-- The type of a value, or `void` where there is no value. -/
inductive ValueType where
  | int (width : Nat)
  | void
deriving DecidableEq, Repr, Inhabited

namespace ValueType

/-- The type of conditions. -/
abbrev bool : ValueType := .int 1

/-- The width in bits, if the type has values at all. -/
def width? : ValueType → Option Nat
  | int width => some width
  | void => none

/-- Whether this is the type of conditions. -/
def isBool (type : ValueType) : Bool :=
  type == bool

/-- Whether this type has no values. -/
def isVoid (type : ValueType) : Bool :=
  type == void

/-- Whether a constant can be written at a type. Where there is no width there is no bound. -/
def Holds (type : ValueType) (constant : Nat) : Prop :=
  ∀ width, type.width? = some width → constant < 1 <<< width

instance (type : ValueType) (constant : Nat) : Decidable (type.Holds constant) :=
  match type with
  | int width =>
    decidable_of_iff (constant < 1 <<< width)
      ⟨fun small _ equal => Option.some.inj equal ▸ small, fun holds => holds width rfl⟩
  | void => isTrue fun _ equal => nomatch equal

@[simp] theorem holds_int (width constant : Nat) :
    (int width).Holds constant ↔ constant < 1 <<< width := by
  simp [Holds, width?]

@[simp] theorem holds_void (constant : Nat) : void.Holds constant := by
  simp [Holds, width?]

end ValueType

/-- A value of one function, by number. -/
structure ValueId where
  index : Nat
deriving DecidableEq, Repr, Inhabited

/-- A value together with its type. -/
structure Value where
  id : ValueId
  type : ValueType
deriving DecidableEq, Repr, Inhabited

/-- A slot of one function, by position. -/
structure LocalId where
  index : Nat
deriving DecidableEq, Repr, Inhabited

/-- A slot of the module, by position. -/
structure GlobalId where
  index : Nat
deriving DecidableEq, Repr, Inhabited

/-- The address of a place in memory. -/
inductive Slot where
  | ofLocal (id : LocalId)
  | ofGlobal (id : GlobalId)
deriving DecidableEq, Repr, Inhabited

/-- A declared local slot with the name of the variable it was made for. -/
structure LocalSlot where
  id : LocalId
  name : String
  type : ValueType
deriving DecidableEq, Repr, Inhabited

/-- A declared module slot. It has no type: each access says which type it reads or writes. -/
structure GlobalSlot where
  id : GlobalId
deriving DecidableEq, Repr, Inhabited

end YulLowering.Ir
