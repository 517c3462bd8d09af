import YulLowering.Ir.Value
import YulLowering.Lowering.Fault

/-!
# Type names

The source names types by width and signedness; the target knows widths only. The empty name stands
for a default that the caller may choose.
-/

namespace YulLowering.Lowering

/-- The meaning of type names: a fixed catalog, and a type for what is untyped. -/
structure TypeNames where
  untyped : Ir.ValueType
deriving DecidableEq, Repr, Inhabited

namespace TypeNames

/-- The name of the type that untyped variables have unless something else is chosen. -/
def defaultName : String := "u256"

/-- All type names. `i32` and `i64` are the names the host interface uses. -/
def catalog : List (String × Ir.ValueType) :=
  [("bool", .int 1),
    ("u8", .int 8), ("s8", .int 8),
    ("u32", .int 32), ("s32", .int 32),
    ("u64", .int 64), ("s64", .int 64),
    ("u128", .int 128), ("s128", .int 128),
    ("u256", .int 256), ("s256", .int 256),
    ("i32", .int 32), ("i64", .int 64)]

/-- Type names whose default is the widest type. -/
def standard : TypeNames :=
  ⟨.int 256⟩

/-- Whether a name has a meaning; the empty one always has. -/
def known (name : String) : Bool :=
  name.isEmpty || (catalog.lookup name).isSome

/-- The type a name stands for. -/
def resolve (types : TypeNames) (name : String) : Except Fault Ir.ValueType :=
  if name.isEmpty then .ok types.untyped
  else
    match catalog.lookup name with
    | some type => .ok type
    | none => .error (.unknownType name)

/-- The types that several names stand for; the first unknown one is reported. -/
def resolveAll (types : TypeNames) (names : List String) : Except Fault (List Ir.ValueType) :=
  names.mapM types.resolve

/-- Type names with the default chosen by name. -/
def ofDefaultName (name : String) : Except Fault TypeNames :=
  (standard.resolve name).map TypeNames.mk

end TypeNames

end YulLowering.Lowering
