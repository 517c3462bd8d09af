import YulLowering.Proofs.Refusals.Statements
import YulLowering.Proofs.Sessions

/-!
# Checked settings are never a reason to fail

A session under settings that have been checked refuses a program for what is in the program. A type that it
does not know is one that the program writes, whatever builtins are called and whatever their types are, and
no builtin has several results.
-/

namespace YulLowering

open Lowering

variable {context : Context} {names : List String}

namespace Lowering

theorem own_bindParameters (parameters : List TypedName) (values : List Ir.Value) :
    (bindParameters parameters values).FailsOnly (Fault.Own names) := by
  induction parameters generalizing values with
  | nil => exact .pure ()
  | cons parameter rest ih =>
      cases values with
      | nil => exact .pure ()
      | cons value values =>
          apply Step.FailsOnly.bind (.declare _ _)
          intro slot
          apply Step.FailsOnly.modify_bind
          exact ih values

theorem own_bindReturns (returns : List TypedName) (types : List Ir.ValueType) :
    (bindReturns returns types).FailsOnly (Fault.Own names) := by
  induction returns generalizing types with
  | nil => exact .pure []
  | cons target rest ih =>
      cases types with
      | nil => exact .pure []
      | cons type types =>
          apply Step.FailsOnly.bind (.declare _ _)
          intro slot
          apply Step.FailsOnly.write_bind
          intro zero
          apply Step.FailsOnly.modify_bind
          apply Step.FailsOnly.bind (ih types)
          intro bindings
          exact .pure _

theorem own_spillReturns (index : Nat) (sources : List Binding) :
    (spillReturns index sources).FailsOnly (Fault.Own names) := by
  induction sources generalizing index with
  | nil => exact .pure ()
  | cons source rest ih =>
      apply Step.FailsOnly.write_bind
      intro value
      apply Step.FailsOnly.bind (.spill fun _ => trivial)
      intro slot
      apply Step.FailsOnly.modify_bind
      exact ih (index + 1)

theorem own_returnValues (returns : List Binding) :
    (returnValues returns).FailsOnly (Fault.Own names) := by
  cases returns with
  | nil => exact .modify _
  | cons first others =>
      apply Step.FailsOnly.bind (.reserveSpills _)
      intro _
      apply Step.FailsOnly.write_bind
      intro value
      apply Step.FailsOnly.bind (own_spillReturns 0 others)
      intro _
      exact .modify _

end Lowering

namespace Definition

/-- The type names in a definition. -/
def typeNames (definition : Definition) : List String :=
  definition.parameters.map TypedName.typeName ++ definition.returns.map TypedName.typeName ++
    Statement.typeNamesOfEach definition.body

variable {definition : Definition} {definitions : List Definition}

theorem own_writeBody (usable : context.dialect.Usable) (signature : Signature)
    (written : definition.typeNames ⊆ names) :
    (definition.writeBody context signature).FailsOnly (Fault.Own names) := by
  obtain ⟨-, inBody⟩ := List.append_subset.mp written
  apply Step.FailsOnly.bind (.inspect _)
  intro parameters
  apply Step.FailsOnly.bind (own_bindParameters _ parameters)
  intro _
  apply Step.FailsOnly.bind (own_bindReturns _ _)
  intro returns
  apply Step.FailsOnly.bind (.inBlock (Statement.own_lowerEach usable _ inBody))
  intro _
  apply Step.FailsOnly.bind (.inspect _)
  rintro (_ | _)
  · exact own_returnValues returns
  · exact .pure ()

theorem own_lower (usable : context.dialect.Usable) (progress : Progress)
    (written : definition.typeNames ⊆ names) :
    FailsOnly (definition.lower context progress) (Fault.Own names) := by
  rw [Definition.lower]
  cases context.signatures.lookup definition.name with
  | none => exact .error trivial
  | some signature =>
      apply FailsOnly.bind ((own_writeBody usable signature written).after _)
      intro _ _
      exact .ok _

theorem own_lowerEach (usable : context.dialect.Usable) (progress : Progress)
    (written : ∀ definition ∈ definitions, definition.typeNames ⊆ names) :
    FailsOnly (Definition.lowerEach context progress definitions) fun error => error.fault.Own names := by
  induction definitions generalizing progress with
  | nil => exact .ok progress
  | cons definition rest ih =>
      obtain ⟨head, tail⟩ := List.forall_mem_cons.mp written
      apply FailsOnly.bind (.within _ (own_lower usable progress head))
      intro progress _
      exact ih progress tail

theorem own_signature (types : TypeNames) (id : Ir.FunctionId) (written : definition.typeNames ⊆ names) :
    FailsOnly (definition.signature types id) (Fault.Own names) := by
  obtain ⟨inHeader, -⟩ := List.append_subset.mp written
  obtain ⟨inParameters, inReturns⟩ := List.append_subset.mp inHeader
  apply FailsOnly.bind (types.own_resolveAll inParameters)
  intro parameters _
  apply FailsOnly.bind (types.own_resolveAll inReturns)
  intro results _
  exact .ok _

theorem own_signatures (types : TypeNames) (known : Signatures)
    (written : ∀ definition ∈ definitions, definition.typeNames ⊆ names) :
    FailsOnly (signatures types known definitions) fun error => error.fault.Own names := by
  induction definitions generalizing known with
  | nil => exact .ok known
  | cons definition rest ih =>
      obtain ⟨head, tail⟩ := List.forall_mem_cons.mp written
      apply FailsOnly.bind (.within _ (own_signature types _ head))
      intro signature _
      exact ih _ tail

end Definition

namespace Block

theorem own_definitions (program : Block) : FailsOnly program.definitions (Fault.Own names) := by
  induction program with
  | nil => exact .ok []
  | cons statement rest ih =>
      cases statement with
      | definition name parameters returns body =>
          rw [Block.definitions]
          cases found : Block.definitions rest with
          | error fault => exact .error (ih.holds fault found)
          | ok others => exact .ok _
      | block | declaration | assignment | expression | conditional | switch | loop | breakLoop
      | continueLoop | label | stackAssignment => exact .error trivial

/-- What is written in a definition of a program is written in the program. -/
theorem typeNames_definitions {program : Block} {definitions : List Definition}
    (isDefined : program.definitions = .ok definitions) :
    ∀ definition ∈ definitions, definition.typeNames ⊆ program.typeNames := by
  induction program generalizing definitions with
  | nil =>
      cases isDefined
      exact fun _ member => nomatch member
  | cons statement rest ih =>
      cases statement with
      | definition name parameters returns body =>
          obtain ⟨others, found, rfl⟩ := map_ok_inv isDefined
          refine List.forall_mem_cons.mpr ⟨List.subset_append_left _ _, fun other member => ?_⟩
          exact List.Subset.trans (ih found other member) (List.subset_append_right _ _)
      | block | declaration | assignment | expression | conditional | switch | loop | breakLoop
      | continueLoop | label | stackAssignment => cases isDefined

/-- Where all builtins of the dialect can be declared, a program fails for what is in it. -/
theorem own_toModule {dialect : Dialect} (usable : dialect.Usable) (types : TypeNames) (name : String)
    (program : Block) :
    FailsOnly (program.toModule dialect types name) fun error => error.fault.Own program.typeNames := by
  rw [Block.toModule]
  cases isDefined : program.definitions with
  | error fault => exact .error (program.own_definitions.holds fault isDefined)
  | ok definitions =>
      have written := typeNames_definitions isDefined
      apply FailsOnly.bind (Definition.own_signatures types .empty written)
      intro signatures _
      apply FailsOnly.bind (Definition.own_lowerEach usable _ written)
      intro progress _
      exact .ok _

end Block

/-- Under settings that have been checked there is a session, and what it refuses it does not refuse for what
the settings say of builtins: a type that is unknown has a name, and the program writes it, and no builtin has
several results. -/
theorem Session.fails_by_program {settings : Settings} (checked : settings.checked = .ok settings) :
    ∃ session, create settings = .ok session ∧
      ∀ (before : List Operation) (program : Block) (error : Error),
        ((session.after before).lower program).1 = .error error →
          (∀ name, error.fault = .unknownType name → name ≠ "" ∧ name ∈ program.typeNames) ∧
            ∀ builtin count, error.fault ≠ .unsupported (.severalResults builtin count) := by
  obtain ⟨types, -, created⟩ := Settings.exists_create checked
  refine ⟨_, created, fun before program error failed => ?_⟩
  rw [answers_create.lower before program] at failed
  have usable := (Settings.usable_of_checked checked).dialect
  have own := (program.own_toModule usable types settings.moduleName).holds error failed
  constructor
  · intro name isFault
    rwa [isFault] at own
  · intro builtin count isFault
    rwa [isFault] at own

/-- Settings under which a builtin of the target is replaced by one with a truth value as its result. -/
def replacingSettings : Settings :=
  ⟨"replaced", "u32", false, [⟨"eth.getCaller", ["", "i64"], ["bool"], true, true⟩]⟩

/-- A program that calls the builtin and goes on to declare a variable of a type that there is not. -/
def misspelledProgram : Block :=
  [.definition "f" [] []
    [.declaration [⟨"a", "bool"⟩]
        (some (.call "eth.getCaller" [.number "1" "", .number "2" "i64"])),
      .declaration [⟨"b", "u24"⟩] none]]

theorem Session.fails_by_program_misspelledProgram :
    replacingSettings.checked = .ok replacingSettings ∧
      ∃ session, create replacingSettings = .ok session ∧
        (session.lower misspelledProgram).1 = .error ⟨some "f", .unknownType "u24"⟩ ∧
        "u24" ∈ misspelledProgram.typeNames := by
  have checked : replacingSettings.checked = .ok replacingSettings :=
    Settings.checked_ok_iff.mpr (by decide +kernel)
  obtain ⟨session, created, own⟩ := Session.fails_by_program checked
  have lowered : (session.lower misspelledProgram).1 = .error ⟨some "f", .unknownType "u24"⟩ := by
    cases created
    decide +kernel
  exact ⟨checked, session, created, lowered, ((own [] _ _ lowered).1 "u24" rfl).2⟩

end YulLowering
