import YulLowering.Proofs.Programs

/-!
# Signatures and functions

All signatures of a program are collected before the first body is lowered, in the order of the
definitions. A signature's number is the position of its definition, which is also the position of
the function in the lowered module. Where names are distinct, a name means the one definition that
has it.
-/

namespace YulLowering.Lowering

/-! ## Collecting signatures -/

theorem length_resolveAll {types : TypeNames} {names : List String}
    {resolved : List Ir.ValueType} (success : types.resolveAll names = .ok resolved) :
    resolved.length = names.length :=
  (mapM_ok_inv success).length_eq.symm

/-- What the signature of a definition says. -/
structure Describes (types : TypeNames) (index : Nat) (definition : Definition)
    (signature : Signature) : Prop where
  name : signature.name = definition.name
  id : signature.id = ⟨index⟩
  parameters : types.resolveAll (definition.parameters.map TypedName.typeName) =
    .ok signature.parameters
  results : types.resolveAll (definition.returns.map TypedName.typeName) = .ok signature.results

theorem Describes.length_parameters {types : TypeNames} {index : Nat} {definition : Definition}
    {signature : Signature} (describes : Describes types index definition signature) :
    signature.parameters.length = definition.parameters.length := by
  simpa using length_resolveAll describes.parameters

theorem Describes.length_results {types : TypeNames} {index : Nat} {definition : Definition}
    {signature : Signature} (describes : Describes types index definition signature) :
    signature.results.length = definition.returns.length := by
  simpa using length_resolveAll describes.results

theorem describes_of_signature {types : TypeNames} {index : Nat} {definition : Definition}
    {signature : Signature} (success : definition.signature types ⟨index⟩ = .ok signature) :
    Describes types index definition signature := by
  obtain ⟨parameterTypes, parameters, success⟩ := bind_ok_inv success
  obtain ⟨resultTypes, results, success⟩ := bind_ok_inv success
  cases success
  exact ⟨rfl, rfl, parameters, results⟩

/-- Signatures are collected in the order of the definitions, and numbered by position. -/
theorem signatures_inv {types : TypeNames} {definitions : List Definition}
    {known all : Signatures} (success : Definition.signatures types known definitions = .ok all) :
    ∃ added, all.all = known.all ++ added ∧
      List.Forall₂ (fun pair signature => Describes types pair.2 pair.1 signature)
        (definitions.zipIdx known.all.length) added := by
  induction definitions generalizing known with
  | nil =>
      cases success
      exact ⟨[], (List.append_nil _).symm, .nil⟩
  | cons definition rest ih =>
      rw [Definition.signatures] at success
      obtain ⟨signature, first, success⟩ := bind_ok_inv success
      obtain ⟨added, areAll, describe⟩ := ih success
      refine ⟨signature :: added, ?_, ?_⟩
      · rw [areAll]
        simp [Signatures.add]
      · rw [List.zipIdx_cons]
        refine .cons (describes_of_signature (mapError_ok_inv first)) ?_
        simpa [Signatures.add] using describe

/-- Where keys are distinct, the entry with a key is found by it. -/
theorem find?_of_distinct {α : Type} {key : α → String} {entries : List α} {entry : α}
    (distinct : (entries.map key).Nodup) (member : entry ∈ entries) :
    entries.find? (fun other => key other == key entry) = some entry := by
  induction entries with
  | nil => cases member
  | cons head rest ih =>
      obtain ⟨absent, distinct⟩ := List.nodup_cons.mp distinct
      rcases List.mem_cons.mp member with rfl | member
      · simp
      · have differs : key head ≠ key entry := by
          intro same
          exact absent (same ▸ List.mem_map_of_mem member)
        rw [List.find?_cons_of_neg (by simpa using differs)]
        exact ih distinct member

/-- Where names are distinct, a name means the one signature that has it. -/
theorem lookup_of_mem {signatures : Signatures} {signature : Signature}
    (distinct : (signatures.all.map Signature.name).Nodup) (member : signature ∈ signatures.all) :
    signatures.lookup signature.name = some signature := by
  apply find?_of_distinct
  · rw [List.map_reverse]
    exact (List.reverse_perm _).nodup_iff.mpr distinct
  · exact List.mem_reverse.mpr member

theorem mem_of_lookup {signatures : Signatures} {name : String} {signature : Signature}
    (found : signatures.lookup name = some signature) :
    signature ∈ signatures.all ∧ signature.name = name := by
  unfold Signatures.lookup at found
  exact ⟨List.mem_reverse.mp (List.mem_of_find?_eq_some found),
    by simpa using List.find?_some found⟩

/-- A call means a function of the program where no builtin has the name. -/
theorem lookups_of_resolveCall {context : Context} {name : String} {signature : Signature}
    (resolved : context.resolveCall name = .ok (.function signature)) :
    context.dialect.lookup name = none ∧ context.signatures.lookup name = some signature := by
  unfold Context.resolveCall at resolved
  cases isBuiltin : context.dialect.lookup name with
  | some builtin =>
      rw [isBuiltin] at resolved
      cases resolved
  | none =>
      rw [isBuiltin] at resolved
      cases found : context.signatures.lookup name with
      | none =>
          rw [found] at resolved
          cases resolved
      | some other =>
          rw [found] at resolved
          cases resolved
          exact ⟨rfl, rfl⟩

theorem mem_of_resolveCall {context : Context} {name : String} {signature : Signature}
    (resolved : context.resolveCall name = .ok (.function signature)) :
    signature ∈ context.signatures.all :=
  (mem_of_lookup (lookups_of_resolveCall resolved).2).1

/-- A call that is used as an operand has one result, which is direct. -/
theorem CallOutcome.eq_of_single {outcome : CallOutcome} {value : Ir.Value}
    (single : outcome.single = .ok value) : outcome.first = some value ∧ outcome.count = 1 := by
  refine ⟨CallOutcome.first_of_single single, ?_⟩
  unfold CallOutcome.single at single
  split at single
  · split at single
    · assumption
    · cases single
  · cases single

/-! ## Definitions, signatures and functions by position -/

namespace Compiled

variable {dialect : Dialect} {types : TypeNames} {program : Block} {module : Ir.Module}

/-- A definition with its signature and its function, which have the same position. -/
structure Entry (compiled : Compiled dialect types program module) (index : Nat) where
  definition : Definition
  signature : Signature
  function : Ir.Function
  isDefinition : compiled.definitions[index]? = some definition
  isSignature : compiled.signatures.all[index]? = some signature
  isFunction : module.functions[index]? = some function
  describes : Describes types index definition signature
  origin : Origin ⟨dialect, types, compiled.signatures⟩ compiled.last definition function

theorem describes (compiled : Compiled dialect types program module) :
    List.Forall₂ (fun pair signature => Describes types pair.2 pair.1 signature)
      compiled.definitions.zipIdx compiled.signatures.all := by
  obtain ⟨added, areAll, describe⟩ := signatures_inv compiled.areSignatures
  rw [areAll]
  exact describe

theorem length_signatures (compiled : Compiled dialect types program module) :
    compiled.signatures.all.length = compiled.definitions.length := by
  rw [← compiled.describes.length_eq, List.length_zipIdx]

theorem length_functions (compiled : Compiled dialect types program module) :
    module.functions.length = compiled.definitions.length :=
  compiled.origins.length_eq.symm

/-- Every position below the number of definitions has an entry. -/
theorem entry (compiled : Compiled dialect types program module) {index : Nat}
    (bound : index < compiled.definitions.length) : Nonempty (compiled.Entry index) := by
  have signatureBound : index < compiled.signatures.all.length := by
    rw [compiled.length_signatures]
    exact bound
  have functionBound : index < module.functions.length := by
    rw [compiled.length_functions]
    exact bound
  have describes := compiled.describes.get (by simpa using bound) signatureBound
  obtain ⟨origin⟩ := compiled.origins.get bound functionBound
  refine ⟨⟨compiled.definitions[index], compiled.signatures.all[index], module.functions[index],
    List.getElem?_eq_getElem bound, List.getElem?_eq_getElem signatureBound,
    List.getElem?_eq_getElem functionBound, ?_, origin⟩⟩
  simpa using describes

/-- What holds of the definition and the function of every entry holds of those of the module, one by one. -/
theorem forall₂_of_entries (compiled : Compiled dialect types program module)
    {related : Definition → Ir.Function → Prop}
    (each : ∀ {index : Nat} (entry : compiled.Entry index), related entry.definition entry.function) :
    List.Forall₂ related compiled.definitions module.functions := by
  rw [List.forall₂_iff_get]
  refine ⟨compiled.length_functions.symm, ?_⟩
  intro index isDefinition isFunction
  obtain ⟨entry⟩ := compiled.entry isDefinition
  have definition := Option.some.inj
    (entry.isDefinition.symm.trans (List.getElem?_eq_getElem isDefinition))
  have function := Option.some.inj
    (entry.isFunction.symm.trans (List.getElem?_eq_getElem isFunction))
  have holds := each entry
  rw [definition, function] at holds
  exact holds

theorem entry_of_function (compiled : Compiled dialect types program module) {index : Nat}
    {function : Ir.Function} (isFunction : module.functions[index]? = some function) :
    ∃ entry : compiled.Entry index, entry.function = function := by
  obtain ⟨bound, -⟩ := List.getElem?_eq_some_iff.mp isFunction
  obtain ⟨entry⟩ := compiled.entry (by rwa [← compiled.length_functions])
  exact ⟨entry, Option.some.inj (entry.isFunction.symm.trans isFunction)⟩

theorem entry_of_signature (compiled : Compiled dialect types program module)
    {signature : Signature} (member : signature ∈ compiled.signatures.all) :
    ∃ index, ∃ entry : compiled.Entry index, entry.signature = signature := by
  obtain ⟨index, bound, rfl⟩ := List.mem_iff_getElem.mp member
  obtain ⟨entry⟩ := compiled.entry (by rwa [← compiled.length_signatures])
  exact ⟨index, entry, Option.some.inj
    (entry.isSignature.symm.trans (List.getElem?_eq_getElem bound))⟩

theorem names_eq (compiled : Compiled dialect types program module) :
    compiled.signatures.all.map Signature.name = compiled.definitions.map Definition.name := by
  apply List.ext_getElem?
  intro index
  by_cases bound : index < compiled.definitions.length
  · obtain ⟨entry⟩ := compiled.entry bound
    simp [entry.isDefinition, entry.isSignature, entry.describes.name]
  · have beyond : compiled.definitions.length ≤ index := Nat.le_of_not_lt bound
    rw [List.getElem?_eq_none, List.getElem?_eq_none]
    · rwa [List.length_map]
    · rwa [List.length_map, compiled.length_signatures]

/-- Where names are distinct, a function has been written for its own signature. -/
theorem Entry.origin_signature {compiled : Compiled dialect types program module} {index : Nat}
    (entry : compiled.Entry index) (distinct : (compiled.definitions.map Definition.name).Nodup) :
    entry.origin.signature = entry.signature := by
  have member := List.mem_of_getElem? entry.isSignature
  have own := lookup_of_mem (by rwa [compiled.names_eq]) member
  rw [entry.describes.name] at own
  exact Option.some.inj (entry.origin.isSignature.symm.trans own)

end Compiled

end YulLowering.Lowering
