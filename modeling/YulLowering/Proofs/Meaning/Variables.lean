import Mathlib.Data.List.Nodup
import YulLowering.Proofs.Meaning.Positions
import YulLowering.Proofs.Meaning.Source
import YulLowering.Proofs.StatementRuns

/-!
# Variables and slots

The visible variables of a source run and the visible declarations of the lowering are the same list.
The slot of a declaration holds the value of its variable, if the variable has one. Declarations that
are visible have different slots, so a store to one of them leaves the others alone.
-/

namespace YulLowering.Lowering

/-- A declaration whose slot has the value of a variable. Variables without a value are there only if
`lenient` is set. -/
structure Binding.Tracks (lenient : Bool) (frame : Ir.Frame) (binding : Binding)
    (entry : String × Option Nat) : Prop where
  name : binding.name = entry.1
  value : ∀ value, entry.2 = some value → frame.locals binding.slot = some (some value)
  assigned : entry.2 = none → lenient = true

/-- Visible declarations whose slots have the values of variables. Their slots are numbered in the
order of declaration, all below a bound. -/
structure Scope.Tracks (lenient : Bool) (scope : Scope) (bound : Nat) (env : Env)
    (frame : Ir.Frame) : Prop where
  entries : List.Forall₂ (Binding.Tracks lenient frame) scope.bindings.reverse env
  increasing : scope.bindings.Pairwise fun earlier later => earlier.slot.index < later.slot.index
  bounded : ∀ binding ∈ scope.bindings, binding.slot.index < bound

/-- What names mean: the slot of a declaration has the value of the variable. This is all that an
expression relies on which reads no other names. -/
def Scope.Reads (lenient : Bool) (scope : Scope) (env : Env) (frame : Ir.Frame)
    (names : String → Bool) : Prop :=
  ∀ name binding, names name = true → scope.lookup name = some binding →
    ∃ content, env.lookup name = some content ∧
      (∀ value, content = some value → frame.locals binding.slot = some (some value)) ∧
      (content = none → lenient = true)

namespace Scope

variable {lenient : Bool} {scope : Scope} {bound : Nat} {env : Env} {frame : Ir.Frame}

theorem Reads.mono {names fewer : String → Bool} (reads : scope.Reads lenient env frame names)
    (subset : ∀ name, fewer name = true → names name = true) :
    scope.Reads lenient env frame fewer :=
  fun name binding read => reads name binding (subset name read)

theorem Reads.of_locals_eq {names : String → Bool} {later : Ir.Frame}
    (reads : scope.Reads lenient env frame names) (same : later.locals = frame.locals) :
    scope.Reads lenient env later names := by
  intro name binding read found
  rw [same]
  exact reads name binding read found

/-- The latest of several variables that has a name. -/
theorem lookup_of_tracks {bindings : List Binding} {name : String} {binding : Binding}
    (entries : List.Forall₂ (Binding.Tracks lenient frame) bindings env)
    (found : bindings.find? (fun binding => binding.name == name) = some binding) :
    ∃ content, env.lookup name = some content ∧
      (∀ value, content = some value → frame.locals binding.slot = some (some value)) ∧
      (content = none → lenient = true) := by
  induction entries with
  | nil => cases found
  | @cons head entry _ _ here _ ih =>
      obtain ⟨other, content⟩ := entry
      obtain rfl : head.name = other := here.name
      rw [List.lookup_cons]
      by_cases same : head.name = name
      · subst same
        simp only [List.find?_cons, beq_self_eq_true, Option.some.injEq] at found
        exact ⟨content, by simp, found ▸ here.value, here.assigned⟩
      · have isOther : (name == head.name) = false := by simpa using Ne.symm same
        simp only [isOther]
        exact ih (by simpa [same] using found)

/-- Assigning a variable that can be looked up succeeds and is tracked by a store. -/
theorem assign_of_tracks {bindings : List Binding} {name : String} {binding : Binding}
    (entries : List.Forall₂ (Binding.Tracks lenient frame) bindings env)
    (apart : bindings.Pairwise fun later earlier => earlier.slot.index < later.slot.index)
    (found : bindings.find? (fun binding => binding.name == name) = some binding) (value : Nat) :
    ∃ assigned, env.assign name value = some assigned ∧
      List.Forall₂ (Binding.Tracks lenient (frame.set binding.slot (some value))) bindings
        assigned := by
  have elsewhere {other : Binding} {entry : String × Option Nat} (differs : other.slot ≠ binding.slot)
      (tracks : other.Tracks lenient frame entry) :
      other.Tracks lenient (frame.set binding.slot (some value)) entry := by
    refine ⟨tracks.name, ?_, tracks.assigned⟩
    intro content isContent
    rw [Ir.Frame.locals_set, if_neg differs]
    exact tracks.value content isContent
  induction entries with
  | nil => cases found
  | @cons head entry rest others here there ih =>
      obtain ⟨other, content⟩ := entry
      obtain rfl : head.name = other := here.name
      obtain ⟨after, apart⟩ := List.pairwise_cons.mp apart
      rw [Env.assign]
      by_cases same : head.name = name
      · obtain rfl : head = binding := by simpa [same] using found
        refine ⟨_, if_pos same, .cons ⟨rfl, ?_, by simp⟩ ?_⟩
        · intro other isValue
          cases isValue
          simp
        · have below := (List.forall₂_and_left _ _).mpr ⟨after, there⟩
          refine below.imp ?_
          rintro earlier entry ⟨less, tracks⟩
          refine elsewhere ?_ tracks
          intro equal
          rw [equal] at less
          exact Nat.lt_irrefl _ less
      · have foundRest : rest.find? (fun binding => binding.name == name) = some binding := by
          simpa [same] using found
        obtain ⟨assigned, isAssigned, tracks⟩ := ih apart foundRest
        refine ⟨(head.name, content) :: assigned, by rw [if_neg same, isAssigned]; rfl,
          .cons (elsewhere ?_ here) tracks⟩
        have less := after binding (List.mem_of_find?_eq_some foundRest)
        intro equal
        rw [equal] at less
        exact Nat.lt_irrefl _ less

namespace Tracks

theorem length_eq (tracks : scope.Tracks lenient bound env frame) :
    env.length = scope.bindings.length := by
  simpa using tracks.entries.length_eq.symm

theorem reads (tracks : scope.Tracks lenient bound env frame) (names : String → Bool) :
    scope.Reads lenient env frame names :=
  fun _ _ _ found => lookup_of_tracks tracks.entries found

/-- Nothing but the slots of visible declarations matters. -/
theorem of_agrees {later : Ir.Frame} {more : Nat} (tracks : scope.Tracks lenient bound env frame)
    (agrees : frame.Agrees later bound) (le : bound ≤ more) :
    scope.Tracks lenient more env later := by
  constructor
  case entries =>
    have bounded : ∀ binding ∈ scope.bindings.reverse, binding.slot.index < bound :=
      fun binding member => tracks.bounded binding (List.mem_reverse.mp member)
    refine ((List.forall₂_and_left _ _).mpr ⟨bounded, tracks.entries⟩).imp ?_
    rintro binding entry ⟨below, here⟩
    refine ⟨here.name, ?_, here.assigned⟩
    intro value isValue
    rw [agrees binding.slot below]
    exact here.value value isValue
  case increasing => exact tracks.increasing
  case bounded =>
    intro binding member
    exact Nat.lt_of_lt_of_le (tracks.bounded binding member) le

/-- An assignment is tracked by a store. -/
theorem assign (tracks : scope.Tracks lenient bound env frame) {name : String} {binding : Binding}
    (found : scope.lookup name = some binding) (value : Nat) :
    ∃ assigned, env.assign name value = some assigned ∧
      scope.Tracks lenient bound assigned (frame.set binding.slot (some value)) := by
  obtain ⟨assigned, isAssigned, entries⟩ := assign_of_tracks tracks.entries
    (List.pairwise_reverse.mpr tracks.increasing) found value
  exact ⟨assigned, isAssigned, entries, tracks.increasing, tracks.bounded⟩

/-- A declaration is tracked by a new slot. -/
theorem bind (tracks : scope.Tracks lenient bound env frame) {binding : Binding}
    {entry : String × Option Nat} {more : Nat} (here : binding.Tracks lenient frame entry)
    (isNew : bound ≤ binding.slot.index) (below : binding.slot.index < more) :
    (scope.bind binding).Tracks lenient more (entry :: env) frame := by
  constructor
  case entries =>
    rw [Scope.bind, List.reverse_append]
    exact .cons here tracks.entries
  case increasing =>
    apply List.pairwise_append.mpr
    refine ⟨tracks.increasing, List.pairwise_singleton _ _, ?_⟩
    intro earlier member later isLast
    obtain rfl := List.mem_singleton.mp isLast
    exact Nat.lt_of_lt_of_le (tracks.bounded earlier member) isNew
  case bounded =>
    intro other member
    rcases List.mem_append.mp member with member | isLast
    · exact Nat.lt_trans (Nat.lt_of_lt_of_le (tracks.bounded other member) isNew) below
    · obtain rfl := List.mem_singleton.mp isLast
      exact below

/-- Several declarations are tracked by new slots. -/
theorem bindAll {later : Scope} {bindings : List Binding} {entries : Env}
    (tracks : scope.Tracks lenient bound env frame)
    (isLater : later.bindings = scope.bindings ++ bindings)
    (slots : bindings.map (fun binding => binding.slot.index) =
      List.range' bound bindings.length)
    (here : List.Forall₂ (Binding.Tracks lenient frame) bindings entries) :
    later.Tracks lenient (bound + bindings.length) (entries.reverse ++ env) frame := by
  induction here generalizing scope env bound with
  | nil =>
      rw [List.append_nil] at isLater
      constructor
      case entries =>
        rw [isLater]
        exact tracks.entries
      case increasing =>
        rw [isLater]
        exact tracks.increasing
      case bounded =>
        rw [isLater]
        exact tracks.bounded
  | @cons binding entry rest entries first _ ih =>
      rw [List.map_cons, List.length_cons, List.range'_succ] at slots
      obtain ⟨slot, slots⟩ := List.cons_eq_cons.mp slots
      have bound' := tracks.bind first (Nat.le_of_eq slot.symm)
        (show binding.slot.index < bound + 1 by omega)
      have whole := ih bound' (by rw [isLater]; simp [Scope.bind]) slots
      rw [List.length_cons, List.reverse_cons, List.append_assoc, List.singleton_append,
        Nat.add_comm rest.length, ← Nat.add_assoc]
      exact whole

/-- Assignments are tracked by stores. -/
theorem assignAll {names : List String} {bindings : List Binding} {values : List Nat}
    (tracks : scope.Tracks lenient bound env frame)
    (means : scope.Means names bindings) (size : values.length = bindings.length) :
    ∃ assigned, Env.assignAll names values env = some assigned ∧
      scope.Tracks lenient bound assigned
        (frame.setAll ((bindings.map Binding.slot).zip values)) := by
  induction means generalizing env frame values with
  | nil =>
      cases List.length_eq_zero_iff.mp size
      exact ⟨env, rfl, tracks⟩
  | cons first _ ih =>
      obtain ⟨value, values, rfl⟩ := List.exists_cons_of_length_eq_add_one size
      obtain ⟨middle, isMiddle, tracks⟩ := tracks.assign first value
      obtain ⟨assigned, isAssigned, tracks⟩ := ih tracks (Nat.succ.inj size)
      refine ⟨assigned, ?_, tracks⟩
      rw [Env.assignAll, isMiddle]
      exact isAssigned

/-- Where declarations are hidden, their variables are forgotten. -/
theorem leave {outer : Scope} {more : Nat} (tracks : scope.Tracks lenient bound env frame)
    (inside : outer.bindings <+: scope.bindings)
    (bounded : ∀ binding ∈ outer.bindings, binding.slot.index < more) :
    outer.Tracks lenient more (env.drop (env.length - outer.bindings.length)) frame := by
  obtain ⟨declared, isScope⟩ := inside
  constructor
  case entries =>
    have entries := tracks.entries
    rw [tracks.length_eq, ← isScope, List.length_append, Nat.add_sub_cancel_left]
    rw [← isScope, List.reverse_append] at entries
    have dropped := List.forall₂_drop declared.length entries
    rwa [List.drop_left' (List.length_reverse ..)] at dropped
  case increasing =>
    have increasing := tracks.increasing
    rw [← isScope] at increasing
    exact (List.pairwise_append.mp increasing).1
  case bounded => exact bounded

end Tracks

/-- New slots that values have been stored to hold these. -/
theorem tracks_stored {bindings : List Binding} {values : List Nat}
    (slots : bindings.map (fun binding => binding.slot.index) =
      List.range' bound bindings.length) (size : values.length = bindings.length) :
    List.Forall₂ (Binding.Tracks lenient (frame.setAll ((bindings.map Binding.slot).zip values)))
      bindings ((bindings.map Binding.name).zip (values.map some)) := by
  have apart : (((bindings.map Binding.slot).zip values).map Prod.fst).Nodup := by
    rw [List.map_fst_zip (by simp [size])]
    apply List.Nodup.of_map Ir.LocalId.index
    have indices : (bindings.map Binding.slot).map Ir.LocalId.index =
        bindings.map fun binding => binding.slot.index := by simp
    rw [indices, slots]
    exact List.nodup_range'
  apply List.forall₂_iff_get.mpr
  refine ⟨by simp [size], ?_⟩
  intro index inBindings inEntries
  have inValues : index < values.length := by
    rw [size]
    exact inBindings
  constructor
  case name => simp
  case value =>
    intro value isValue
    have isContent : values[index] = value := by simpa using isValue
    apply Ir.Frame.locals_setAll_of_mem frame apart
    apply List.mem_iff_getElem.mpr
    exact ⟨index, by simpa [size] using inBindings, by simp [isContent]⟩
  case assigned =>
    intro isNone
    simp at isNone

/-- Stores to new slots leave the old ones alone. -/
theorem agrees_setAll {bindings : List Binding} {values : List Nat}
    (slots : bindings.map (fun binding => binding.slot.index) =
      List.range' bound bindings.length) :
    frame.Agrees (frame.setAll ((bindings.map Binding.slot).zip values)) bound := by
  intro slot below
  apply Ir.Frame.locals_setAll_of_not_mem
  intro member
  obtain ⟨pair, isStore, rfl⟩ := List.mem_map.mp member
  obtain ⟨binding, isBinding, isSlot⟩ := List.mem_map.mp (List.of_mem_zip isStore).1
  have index : binding.slot.index ∈ List.range' bound bindings.length := by
    rw [← slots]
    exact List.mem_map_of_mem isBinding
  rw [isSlot] at index
  exact Nat.not_lt.mpr (List.mem_range'_1.mp index).1 below

end Scope

end YulLowering.Lowering
