import YulLowering.Session

/-!
# Settings that can be used

Settings are checked before they are used, and nothing goes wrong with them afterwards: the default type has
a meaning, and every builtin of their dialect can be declared.
-/

namespace YulLowering

open Lowering

/-! ## Type names -/

namespace Lowering.TypeNames

/-- A name that is known stands for a type. -/
theorem exists_resolve (types : TypeNames) {name : String} (isKnown : known name = true) :
    ∃ type, types.resolve name = .ok type := by
  unfold resolve
  cases isEmpty : name.isEmpty with
  | true => exact ⟨types.untyped, rfl⟩
  | false =>
      rw [known, isEmpty, Bool.false_or] at isKnown
      obtain ⟨type, found⟩ := Option.isSome_iff_exists.mp isKnown
      rw [found]
      exact ⟨type, rfl⟩

theorem exists_resolveAll (types : TypeNames) {names : List String}
    (allKnown : ∀ name ∈ names, known name = true) : ∃ resolved, types.resolveAll names = .ok resolved := by
  unfold resolveAll
  induction names with
  | nil => exact ⟨[], rfl⟩
  | cons name rest ih =>
      obtain ⟨headKnown, restKnown⟩ := List.forall_mem_cons.mp allKnown
      obtain ⟨type, resolved⟩ := types.exists_resolve headKnown
      obtain ⟨others, resolvedRest⟩ := ih restKnown
      rw [List.mapM_cons, resolved, resolvedRest]
      exact ⟨type :: others, rfl⟩

end Lowering.TypeNames

/-! ## Builtins -/

/-- A builtin that can be declared. -/
structure Builtin.Usable (builtin : Builtin) : Prop where
  results_le : builtin.results.length ≤ 1
  known : ∀ name ∈ builtin.parameters ++ builtin.results, TypeNames.known name = true

instance (builtin : Builtin) : Decidable builtin.Usable :=
  decidable_of_iff
    (builtin.results.length ≤ 1 ∧ ∀ name ∈ builtin.parameters ++ builtin.results, TypeNames.known name = true)
    ⟨fun ⟨few, known⟩ => ⟨few, known⟩, fun usable => ⟨usable.results_le, usable.known⟩⟩

theorem Builtin.Usable.exists_external {builtin : Builtin} (usable : builtin.Usable) (context : Context) :
    ∃ external, context.external builtin = .ok external := by
  obtain ⟨few, known⟩ := usable
  obtain ⟨knownParameters, knownResults⟩ := List.forall_mem_append.mp known
  obtain ⟨parameters, resolvedParameters⟩ := context.types.exists_resolveAll knownParameters
  obtain ⟨results, resolvedResults⟩ := context.types.exists_resolveAll knownResults
  rw [Context.external, if_neg (Nat.not_lt.mpr few), resolvedParameters, resolvedResults]
  exact ⟨⟨builtin.name, parameters, results, builtin.effects⟩, rfl⟩

namespace Dialect

/-- All builtins of a dialect can be declared. -/
def Usable (dialect : Dialect) : Prop :=
  ∀ builtin ∈ dialect.builtins, builtin.Usable

theorem usable_register {dialect : Dialect} {builtin : Builtin} (usable : dialect.Usable)
    (also : builtin.Usable) : (dialect.register builtin).Usable := by
  intro registered member
  unfold register at member
  split at member
  · obtain ⟨other, isOther, rfl⟩ := List.mem_map.mp member
    split
    · exact also
    · exact usable other isOther
  · rcases List.mem_append.mp member with isOther | isNew
    · exact usable registered isOther
    · rw [List.mem_singleton.mp isNew]
      exact also

theorem usable_registerAll {dialect : Dialect} {builtins : List Builtin} (usable : dialect.Usable)
    (also : ∀ builtin ∈ builtins, builtin.Usable) : (dialect.registerAll builtins).Usable := by
  induction builtins generalizing dialect with
  | nil => exact usable
  | cons builtin rest ih =>
      obtain ⟨head, tail⟩ := List.forall_mem_cons.mp also
      exact ih (usable_register usable head) tail

theorem Ethereum.usable : Ethereum.dialect.Usable :=
  usable_registerAll (fun _ member => nomatch member) (by decide)

end Dialect

/-- Nothing is wrong with a builtin whose descriptor can be declared. -/
theorem BuiltinSetting.usable_descriptor {builtin : BuiltinSetting} (none_wrong : builtin.fault? = none) :
    builtin.descriptor.Usable := by
  unfold BuiltinSetting.fault? at none_wrong
  split at none_wrong
  · contradiction
  · split at none_wrong
    · contradiction
    · next few =>
      rw [Option.map_eq_none_iff, List.find?_eq_none] at none_wrong
      refine ⟨Nat.le_of_not_lt few, fun name member => ?_⟩
      simpa using none_wrong name member

/-! ## Settings -/

namespace Settings

variable {settings : Settings}

theorem checked_ok_iff : settings.checked = .ok settings ↔ settings.fault? = none := by
  unfold checked
  cases settings.fault? <;> simp

/-- Settings are passed on as they are. -/
theorem eq_of_checked {passed : Settings} (checked : settings.checked = .ok passed) : passed = settings := by
  unfold Settings.checked at checked
  split at checked <;> cases checked
  rfl

/-- Settings that can be used. -/
structure Usable (settings : Settings) : Prop where
  default_nonempty : settings.defaultType.isEmpty = false
  default_known : TypeNames.known settings.defaultType = true
  builtins : ∀ builtin ∈ settings.builtins, builtin.fault? = none

theorem usable_of_checked (checked : settings.checked = .ok settings) : settings.Usable := by
  rw [checked_ok_iff, fault?] at checked
  split at checked
  · contradiction
  · next rightDefault =>
    rw [not_or, Decidable.not_not, Bool.not_eq_true] at rightDefault
    refine ⟨rightDefault.1, rightDefault.2, fun builtin member => ?_⟩
    exact Option.map_eq_none_iff.mp (List.findSome?_eq_none_iff.mp checked builtin member)

/-- The default type has a meaning. -/
theorem Usable.exists_types (usable : settings.Usable) : ∃ types, settings.types = .ok types := by
  obtain ⟨type, resolved⟩ := TypeNames.standard.exists_resolve usable.default_known
  rw [types, TypeNames.ofDefaultName, resolved]
  exact ⟨⟨type⟩, rfl⟩

/-- Builtins that a user adds do not spoil those of the target. -/
theorem Usable.dialect (usable : settings.Usable) : settings.dialect.Usable := by
  apply Dialect.usable_registerAll Dialect.Ethereum.usable
  intro descriptor member
  obtain ⟨builtin, isBuiltin, rfl⟩ := List.mem_map.mp member
  exact BuiltinSetting.usable_descriptor (usable.builtins builtin isBuiltin)

/-- A session can be had under settings that have been checked. -/
theorem exists_create (checked : settings.checked = .ok settings) :
    ∃ types, settings.types = .ok types ∧
      Session.create settings = .ok ⟨settings, types, .ofCatalog settings.dialect⟩ := by
  obtain ⟨types, chosen⟩ := (usable_of_checked checked).exists_types
  refine ⟨types, chosen, ?_⟩
  rw [Session.create, checked]
  show (do let types ← settings.types; _) = _
  rw [chosen]
  rfl

end Settings

end YulLowering
