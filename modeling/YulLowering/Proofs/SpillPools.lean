import Mathlib.Data.List.Nodup
import YulLowering.Proofs.Programs

/-!
# Pools that share a module

The slots of a pool are numbered by the module, in which others may add slots too. Whatever is asked for in
whatever order, the pool has as many slots as the largest request says, keeps each of them at its place, and
shares none with the slots that have been added to the module directly.
-/

namespace YulLowering.Lowering

namespace SpillSlots

/-- What a pool and its module are told to do. -/
inductive Operation where
  /-- Have a number of slots in the pool. -/
  | reserve (count : Nat)
  /-- Add a slot to the module, past the pool. -/
  | addGlobal
deriving DecidableEq, Repr

/-- How many slots an operation asks the pool to have. -/
def Operation.requested? : Operation → Option Nat
  | reserve count => some count
  | addGlobal => none

end SpillSlots

open SpillSlots (Operation)

/-- A pool and the module that it takes its slots from. -/
structure Sharing where
  pool : SpillSlots
  module : Ir.Module
  /-- The slots that have been added to the module directly. -/
  direct : List Ir.GlobalId
deriving DecidableEq, Repr

namespace Sharing

/-- An empty pool, and a module that has no slots. -/
def start (module : Ir.Module) : Sharing :=
  ⟨.empty, { module with globals := [] }, []⟩

def step (sharing : Sharing) : Operation → Sharing
  | .reserve count =>
    let (pool, module) := sharing.pool.reserve sharing.module count
    { sharing with pool, module }
  | .addGlobal =>
    let (id, module) := sharing.module.pushGlobal
    { sharing with module, direct := sharing.direct ++ [id] }

/-- The pool and the module after operations. -/
def after (sharing : Sharing) (operations : List Operation) : Sharing :=
  operations.foldl step sharing

/-- The module with its next slots added. -/
def grown (sharing : Sharing) (count : Nat) : Ir.Module :=
  { sharing.module with
    globals := sharing.module.globals ++ (nextGlobals sharing.module count).map Ir.GlobalSlot.mk }

theorem ids_grown (sharing : Sharing) (count : Nat) :
    (sharing.grown count).globals.map Ir.GlobalSlot.id =
      sharing.module.globals.map Ir.GlobalSlot.id ++ nextGlobals sharing.module count := by
  simp [grown, Function.comp_def]

/-! ## One operation -/

/-- A request gives the pool the slots that it lacks. -/
theorem step_reserve (sharing : Sharing) (count : Nat) :
    sharing.step (.reserve count) =
      ⟨⟨sharing.pool.slots ++ nextGlobals sharing.module (count - sharing.pool.size)⟩,
        sharing.grown (count - sharing.pool.size), sharing.direct⟩ := by
  rw [step, SpillSlots.reserve, extendBy_eq]
  rfl

theorem step_addGlobal (sharing : Sharing) :
    sharing.step .addGlobal =
      ⟨sharing.pool, sharing.grown 1, sharing.direct ++ nextGlobals sharing.module 1⟩ := rfl

/-- The slots of a module are numbered by their positions. Each is in the pool or has been added directly, but
not both, and the pool has its slots in the order of their numbers. -/
structure Apart (sharing : Sharing) : Prop where
  numbered : sharing.module.globals.map Ir.GlobalSlot.id =
    (List.range sharing.module.globals.length).map Ir.GlobalId.mk
  increasing : sharing.pool.slots.Pairwise fun earlier later => earlier.index < later.index
  shared : (sharing.pool.slots ++ sharing.direct).Perm (sharing.module.globals.map Ir.GlobalSlot.id)

theorem apart_start (module : Ir.Module) : (start module).Apart where
  numbered := rfl
  increasing := .nil
  shared := .nil

namespace Apart

variable {sharing : Sharing}

theorem index_lt (apart : sharing.Apart) {slot : Ir.GlobalId} (member : slot ∈ sharing.pool.slots) :
    slot.index < sharing.module.globals.length := by
  have inModule := apart.shared.subset (List.mem_append_left sharing.direct member)
  rw [apart.numbered] at inModule
  obtain ⟨index, bound, rfl⟩ := List.mem_map.mp inModule
  exact List.mem_range.mp bound

theorem numbered_grown (apart : sharing.Apart) (count : Nat) :
    (sharing.grown count).globals.map Ir.GlobalSlot.id =
      (List.range (sharing.grown count).globals.length).map Ir.GlobalId.mk := by
  rw [ids_grown, apart.numbered]
  simp [grown, nextGlobals, List.range_eq_range', ← List.range'_append_1]

theorem shared_grown (apart : sharing.Apart) (count : Nat) :
    ((sharing.pool.slots ++ sharing.direct) ++ nextGlobals sharing.module count).Perm
      ((sharing.grown count).globals.map Ir.GlobalSlot.id) := by
  rw [ids_grown]
  exact apart.shared.append_right _

theorem step (apart : sharing.Apart) (operation : Operation) : (sharing.step operation).Apart := by
  cases operation with
  | reserve count =>
      rw [step_reserve]
      constructor
      case numbered => exact apart.numbered_grown _
      case increasing =>
        rw [List.pairwise_append]
        refine ⟨apart.increasing, ?_, ?_⟩
        · exact List.pairwise_map.mpr (List.pairwise_lt_range' 1)
        · intro old isOld new isNew
          obtain ⟨index, bounds, rfl⟩ := List.mem_map.mp isNew
          exact Nat.lt_of_lt_of_le (apart.index_lt isOld) (List.mem_range'_1.mp bounds).1
      case shared =>
        refine .trans ?_ (apart.shared_grown _)
        rw [List.append_assoc, List.append_assoc]
        exact List.perm_append_comm.append_left _
  | addGlobal =>
      rw [step_addGlobal]
      constructor
      case numbered => exact apart.numbered_grown _
      case increasing => exact apart.increasing
      case shared =>
        rw [← List.append_assoc]
        exact apart.shared_grown _

theorem after (apart : sharing.Apart) (operations : List Operation) : (sharing.after operations).Apart := by
  induction operations generalizing sharing with
  | nil => exact apart
  | cons operation rest ih => exact ih (apart.step operation)

theorem nodup (apart : sharing.Apart) : (sharing.pool.slots ++ sharing.direct).Nodup := by
  rw [apart.shared.nodup_iff, apart.numbered]
  exact List.nodup_range.map fun _ _ same => Ir.GlobalId.mk.inj same

theorem id_eq (apart : sharing.Apart) {index : Nat} (bound : index < sharing.module.globals.length) :
    sharing.module.globals[index].id = ⟨index⟩ := by
  have numbered := congrArg (fun ids => ids[index]?) apart.numbered
  simpa [bound] using numbered

end Apart

/-! ## Runs -/

theorem slots_step (sharing : Sharing) (operation : Operation) :
    sharing.pool.slots <+: (sharing.step operation).pool.slots := by
  cases operation with
  | reserve count =>
      rw [step_reserve]
      exact List.prefix_append _ _
  | addGlobal => exact List.prefix_refl _

/-- Slots that the pool has stay where they are. -/
theorem slots_after (sharing : Sharing) (operations : List Operation) :
    sharing.pool.slots <+: (sharing.after operations).pool.slots := by
  induction operations generalizing sharing with
  | nil => exact List.prefix_refl _
  | cons operation rest ih => exact (sharing.slots_step operation).trans (ih _)

theorem size_after (sharing : Sharing) (operations : List Operation) :
    (sharing.after operations).pool.size =
      (operations.filterMap Operation.requested?).foldl max sharing.pool.size := by
  induction operations generalizing sharing with
  | nil => rfl
  | cons operation rest ih =>
      show ((sharing.step operation).after rest).pool.size = _
      rw [ih]
      cases operation with
      | reserve count => simp [step, Operation.requested?]
      | addGlobal => rfl

theorem length_direct_after (sharing : Sharing) (operations : List Operation) :
    (sharing.after operations).direct.length = sharing.direct.length + operations.count .addGlobal := by
  induction operations generalizing sharing with
  | nil => rfl
  | cons operation rest ih =>
      show ((sharing.step operation).after rest).direct.length = _
      rw [ih]
      cases operation with
      | reserve count => simp [step]
      | addGlobal =>
          simp only [step_addGlobal, nextGlobals, List.length_append, List.length_map, List.length_range',
            List.count_cons_self]
          omega

theorem bare_step (sharing : Sharing) (operation : Operation) :
    { (sharing.step operation).module with globals := [] } = { sharing.module with globals := [] } := by
  cases operation with
  | reserve count => rw [step_reserve, grown]
  | addGlobal => rfl

/-- Nothing but slots is added to the module. -/
theorem bare_after (sharing : Sharing) (operations : List Operation) :
    { (sharing.after operations).module with globals := [] } = { sharing.module with globals := [] } := by
  induction operations generalizing sharing with
  | nil => rfl
  | cons operation rest ih => exact (ih _).trans (sharing.bare_step operation)

/-- A pool has as many slots as the largest request says, and keeps each at its place whatever happens later.
Its slots are numbered in their order, are all in the module, and are none of those that have been added to the
module directly. The module has these and no others, numbered by their positions. -/
theorem grows_minimally (module : Ir.Module) (operations : List Operation) :
    let sharing := (start module).after operations
    sharing.pool.size = (operations.filterMap Operation.requested?).max?.getD 0 ∧
      (∀ (index : Nat) (slot : Ir.GlobalId), sharing.pool.slot? index = some slot →
        ∀ later : List Operation, (sharing.after later).pool.slot? index = some slot) ∧
      (∀ index, (sharing.pool.slot? index).isSome ↔ index < sharing.pool.size) ∧
      sharing.pool.slots.Pairwise (fun earlier later => earlier.index < later.index) ∧
      (∀ slot ∈ sharing.pool.slots, ⟨slot⟩ ∈ sharing.module.globals ∧ slot ∉ sharing.direct) ∧
      sharing.direct.length = operations.count .addGlobal ∧
      sharing.module.globals.length = sharing.pool.size + sharing.direct.length ∧
      (∀ (index : Nat) (bound : index < sharing.module.globals.length),
        sharing.module.globals[index].id = ⟨index⟩) ∧
      { sharing.module with globals := [] } = { module with globals := [] } := by
  intro sharing
  have apart : sharing.Apart := (apart_start module).after operations
  refine ⟨?size, ?stays, ?defined, apart.increasing, ?shared, ?direct, ?count, ?numbered, ?bare⟩
  case size =>
    rw [size_after, List.foldl_max]
    simp [start, SpillSlots.empty, SpillSlots.size]
  case stays =>
    intro index slot found later
    exact Ir.getElem?_of_prefix (sharing.slots_after later) found
  case defined =>
    simp [SpillSlots.slot?, SpillSlots.size]
  case shared =>
    intro slot member
    constructor
    · have inModule := apart.shared.subset (List.mem_append_left sharing.direct member)
      obtain ⟨global, isGlobal, rfl⟩ := List.mem_map.mp inModule
      exact isGlobal
    · exact List.disjoint_of_nodup_append apart.nodup member
  case direct => exact (length_direct_after (start module) operations).trans (Nat.zero_add _)
  case count =>
    have count := apart.shared.length_eq
    rw [List.length_append, List.length_map] at count
    exact count.symm
  case numbered => exact fun _ => apart.id_eq
  case bare => exact (start module).bare_after operations

/-- A slot is added between those of the pool, which grows past it and keeps what it has. -/
theorem grows_minimally_aroundAnother :
    let sharing := (start (.empty "shared")).after [.reserve 2, .addGlobal, .reserve 1, .reserve 3]
    sharing.pool.slot? 2 = some ⟨3⟩ ∧ (∀ later, (sharing.after later).pool.slot? 2 = some ⟨3⟩) ∧
      ⟨3⟩ ∈ sharing.pool.slots ∧ ⟨3⟩ ∉ sharing.direct ∧
      ∃ bound : 2 < sharing.module.globals.length, sharing.module.globals[2].id = ⟨2⟩ := by
  intro sharing
  obtain ⟨-, stays, -, -, shared, -, -, numbered, -⟩ := grows_minimally (.empty "shared")
    [.reserve 2, .addGlobal, .reserve 1, .reserve 3]
  have found : sharing.pool.slot? 2 = some ⟨3⟩ := rfl
  have member : ⟨3⟩ ∈ sharing.pool.slots := List.mem_of_getElem? found
  have bound : 2 < sharing.module.globals.length := by decide
  exact ⟨found, stays 2 ⟨3⟩ found, member, (shared ⟨3⟩ member).2, bound, numbered 2 bound⟩

end Sharing

end YulLowering.Lowering
