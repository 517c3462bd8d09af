import YulLowering.Proofs.Signatures

/-!
# What a repeated name means

Nothing keeps a program from having several functions of one name. A name then means the last of them, and
it does so everywhere: in the list of definitions, in the signatures that calls are resolved with, and in
the lowered module.
-/

namespace YulLowering

/-- The last of several definitions that has a name. -/
def Definition.latest? (definitions : List Definition) (name : String) : Option Definition :=
  definitions.reverse.find? fun definition => definition.name == name

namespace Lowering

/-- In two lists whose entries correspond, the last entries of a kind correspond. -/
theorem find?_reverse_of_forall₂ {α β : Type} {related : α → β → Prop} {first : List α}
    {second : List β} (all : List.Forall₂ related first second) {accepts : α → Bool}
    (others : β → Bool) (same : ∀ {entry other}, related entry other → accepts entry = others other)
    {entry : α} (found : first.reverse.find? accepts = some entry) :
    ∃ other, second.reverse.find? others = some other ∧ related entry other := by
  -- The last entry of a list is the first one that the search meets, so the induction is on the reversed lists.
  have reversed := List.rel_reverse all
  generalize first.reverse = first at reversed found
  generalize second.reverse = second at reversed
  induction reversed with
  | nil => cases found
  | @cons head other _ _ isRelated _ ih =>
      rw [List.find?_cons] at found ⊢
      rw [← same isRelated]
      cases isHead : accepts head with
      | true =>
          rw [isHead] at found
          cases found
          exact ⟨other, rfl, isRelated⟩
      | false =>
          rw [isHead] at found
          exact ih found

namespace Compiled

variable {dialect : Dialect} {types : TypeNames} {program : Block} {module : Ir.Module}
  {compiled : Compiled dialect types program module}

theorem Entry.name_function {index : Nat} (entry : compiled.Entry index) :
    entry.function.name = entry.definition.name :=
  entry.origin.grows.name

theorem entry_of_definition (compiled : Compiled dialect types program module) {index : Nat}
    {definition : Definition} (isDefinition : compiled.definitions[index]? = some definition) :
    ∃ entry : compiled.Entry index, entry.definition = definition := by
  obtain ⟨bound, -⟩ := List.getElem?_eq_some_iff.mp isDefinition
  obtain ⟨entry⟩ := compiled.entry bound
  exact ⟨entry, Option.some.inj (entry.isDefinition.symm.trans isDefinition)⟩

/-- Entries with one signature are at one position. -/
theorem Entry.index_eq {index position : Nat} (entry : compiled.Entry index)
    (other : compiled.Entry position) (same : entry.signature = other.signature) :
    index = position := by
  have ids := other.describes.id
  rw [← same, entry.describes.id] at ids
  exact congrArg Ir.FunctionId.index ids

/-- Signatures and definitions correspond by position. -/
theorem forall₂_definitions (compiled : Compiled dialect types program module) :
    List.Forall₂ (fun signature definition => ∃ index, ∃ entry : compiled.Entry index,
      entry.signature = signature ∧ entry.definition = definition)
      compiled.signatures.all compiled.definitions := by
  rw [List.forall₂_iff_get]
  refine ⟨compiled.length_signatures, ?_⟩
  intro index isSignature isDefinition
  obtain ⟨entry⟩ := compiled.entry isDefinition
  exact ⟨index, entry,
    Option.some.inj (entry.isSignature.symm.trans (List.getElem?_eq_getElem isSignature)),
    Option.some.inj (entry.isDefinition.symm.trans (List.getElem?_eq_getElem isDefinition))⟩

/-- Signatures and numbered functions correspond by position. -/
theorem forall₂_functions (compiled : Compiled dialect types program module) :
    List.Forall₂ (fun signature numbered => ∃ index, ∃ entry : compiled.Entry index,
      entry.signature = signature ∧ numbered = (entry.function, index))
      compiled.signatures.all module.functions.zipIdx := by
  rw [List.forall₂_iff_get]
  refine ⟨?_, ?_⟩
  · rw [compiled.length_signatures, List.length_zipIdx, compiled.length_functions]
  · intro index isSignature isFunction
    have bound : index < module.functions.length := by simpa using isFunction
    obtain ⟨entry⟩ := compiled.entry (by rwa [← compiled.length_functions])
    have same : module.functions[index] = entry.function :=
      Option.some.inj ((List.getElem?_eq_getElem bound).symm.trans entry.isFunction)
    refine ⟨index, entry,
      Option.some.inj (entry.isSignature.symm.trans (List.getElem?_eq_getElem isSignature)), ?_⟩
    rw [List.get_eq_getElem, List.getElem_zipIdx, Nat.zero_add, same]

/-- A name that has a signature means the definition and the function at the position of the
signature. -/
theorem meant (compiled : Compiled dialect types program module) {name : String}
    {signature : Signature} (found : compiled.signatures.lookup name = some signature) :
    ∃ index, ∃ entry : compiled.Entry index, entry.signature = signature ∧
      entry.definition.name = name ∧
      Definition.latest? compiled.definitions name = some entry.definition ∧
      module.functionNamed? name = some ⟨index⟩ := by
  obtain ⟨definition, isLatest, position, other, isOther, rfl⟩ :=
    find?_reverse_of_forall₂ compiled.forall₂_definitions (fun definition => definition.name == name)
      (fun {signature definition} related => by
        obtain ⟨index, entry, rfl, rfl⟩ := related
        rw [entry.describes.name]) found
  obtain ⟨_, isLast, index, entry, isEntry, rfl⟩ :=
    find?_reverse_of_forall₂ compiled.forall₂_functions (fun numbered => numbered.1.name == name)
      (fun {signature numbered} related => by
        obtain ⟨index, entry, rfl, rfl⟩ := related
        rw [entry.describes.name, ← entry.name_function]) found
  obtain rfl := entry.index_eq other (isEntry.trans isOther.symm)
  have named : signature.name = name := (mem_of_lookup found).2
  refine ⟨index, other, isOther, ?_, isLatest, ?_⟩
  · rw [← other.describes.name, isOther, named]
  · rw [Ir.Module.functionNamed?, isLast]
    rfl

/-- A function has been written for the signature of the last definition of its name. -/
theorem Entry.meant {index : Nat} (entry : compiled.Entry index) :
    ∃ position, ∃ other : compiled.Entry position,
      other.signature = entry.origin.signature ∧
      Definition.latest? compiled.definitions entry.definition.name = some other.definition ∧
      module.functionNamed? entry.definition.name = some ⟨position⟩ := by
  obtain ⟨position, other, isOther, -, isLatest, isNamed⟩ :=
    compiled.meant entry.origin.isSignature
  exact ⟨position, other, isOther, isLatest, isNamed⟩

end Compiled

end Lowering

end YulLowering
