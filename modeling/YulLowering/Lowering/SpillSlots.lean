import YulLowering.Ir.Module

/-!
# Spill slots

A call has one direct result. The second and later results of a function travel through slots of the
module: the callee fills them before it returns, the caller reads them right after the call. All
functions share one pool of these slots, which grows when more are asked for and never shrinks.
-/

namespace YulLowering.Lowering

/-- The slots that carry results, in the order of the results. -/
structure SpillSlots where
  slots : List Ir.GlobalId
deriving DecidableEq, Repr, Inhabited

namespace SpillSlots

/-- A pool without slots. -/
def empty : SpillSlots :=
  ⟨[]⟩

/-- Add one slot. -/
def extend (pool : SpillSlots) (module : Ir.Module) : SpillSlots × Ir.Module :=
  let (slot, module) := module.pushGlobal
  (⟨pool.slots ++ [slot]⟩, module)

/-- Add a number of slots. -/
def extendBy (pool : SpillSlots) (module : Ir.Module) : Nat → SpillSlots × Ir.Module
  | 0 => (pool, module)
  | count + 1 =>
    let (pool, module) := pool.extend module
    pool.extendBy module count

/-- Have at least a number of slots, adding only those that are missing. -/
def reserve (pool : SpillSlots) (module : Ir.Module) (count : Nat) : SpillSlots × Ir.Module :=
  pool.extendBy module (count - pool.slots.length)

/-- The slot at a position. -/
def slot? (pool : SpillSlots) (index : Nat) : Option Ir.GlobalId :=
  pool.slots[index]?

/-- The number of slots. -/
def size (pool : SpillSlots) : Nat :=
  pool.slots.length

@[simp] theorem size_extend (pool : SpillSlots) (module : Ir.Module) :
    (pool.extend module).1.size = pool.size + 1 := by
  simp [extend, size]

@[simp] theorem size_extendBy (pool : SpillSlots) (module : Ir.Module) (count : Nat) :
    (pool.extendBy module count).1.size = pool.size + count := by
  induction count generalizing pool module with
  | zero => rfl
  | succ count ih =>
    rw [extendBy, ih, size_extend]
    omega

/-- A pool grows only as far as it is asked to. -/
@[simp] theorem size_reserve (pool : SpillSlots) (module : Ir.Module) (count : Nat) :
    (pool.reserve module count).1.size = max pool.size count := by
  rw [reserve, size_extendBy]
  simp only [size]
  omega

end SpillSlots

end YulLowering.Lowering
