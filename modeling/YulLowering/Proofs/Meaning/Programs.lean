import YulLowering.Proofs.Meaning.Functions
import YulLowering.Proofs.Outcomes
import YulLowering.Proofs.Violations.Source

/-!
# Lowering preserves meaning

A source run that nests calls no deeper than some fuel allows is simulated by the machine, which is
proved by induction on the fuel: what is known about calls with less fuel is what the bodies of functions
rely on. A run that needs more fuel than any amount keeps the machine going for ever.
-/

namespace YulLowering

namespace Lowering

open Ir (Frame Machine)

variable {World : Type} {dialect : Dialect} {types : TypeNames} {program : Block}
  {module : Ir.Module} {lenient : Bool} {fuel : Nat}

namespace Compiled

variable {compiled : Compiled dialect types program module}

/-- The source program, given what builtins do. -/
def source (compiled : Compiled dialect types program module)
    (interpretation : Interpretation World) : Runnable World :=
  ⟨dialect, compiled.definitions, interpretation⟩

/-- A call that means a function means the definition with its signature. -/
theorem entry_of_resolveCall (distinct : (compiled.definitions.map Definition.name).Nodup)
    (interpretation : Interpretation World) {name : String} {signature : Signature}
    (resolved : Context.resolveCall ⟨dialect, types, compiled.signatures⟩ name =
      .ok (.function signature)) :
    dialect.lookup name = none ∧ ∃ index, ∃ entry : compiled.Entry index,
      entry.signature = signature ∧
        (compiled.source interpretation).definition? name = some entry.definition := by
  obtain ⟨noBuiltin, found⟩ := lookups_of_resolveCall resolved
  obtain ⟨member, rfl⟩ := mem_of_lookup found
  obtain ⟨index, entry, rfl⟩ := compiled.entry_of_signature member
  refine ⟨noBuiltin, index, entry, rfl, ?_⟩
  rw [entry.describes.name]
  exact find?_of_distinct distinct (List.mem_of_getElem? entry.isDefinition)

/-- The module has the spill slots that a call of the function needs. -/
theorem Entry.length_results_le {index : Nat} (entry : compiled.Entry index)
    (distinct : (compiled.definitions.map Definition.name).Nodup) :
    entry.signature.results.length - 1 ≤ module.globals.length := by
  have returns : module.Returns ⟨index⟩ entry.signature.results.length :=
    ⟨entry.function, entry.isFunction, entry.returns distinct⟩
  exact compiled.returns_le distinct returns

end Compiled

/-! ## Calls -/

/-- With a given amount of fuel, the functions of the module do what their definitions do. -/
def Follows (compiled : Compiled dialect types program module)
    (interpretation : Interpretation World) (lenient : Bool) (fuel : Nat) : Prop :=
  ∀ {index : Nat} (entry : compiled.Entry index) {arguments : List Nat},
    arguments.length = entry.definition.parameters.length →
    ∃ start, entry.function.call? arguments = some start ∧ ∀ callers globals world,
      Machine.Simulates (⟨module, interpretation⟩ : Machine World) lenient fuel
        ((compiled.source interpretation).run fuel entry.definition arguments world)
        (.running start callers globals world) (Returned entry.signature.results.length callers)

namespace Follows

variable {compiled : Compiled dialect types program module}
  {interpretation : Interpretation World}

/-- Calls may be nested one level deeper than what they call. -/
theorem answers (follows : Follows compiled interpretation lenient fuel)
    (distinct : (compiled.definitions.map Definition.name).Nodup) :
    Answers (⟨module, interpretation⟩ : Machine World) lenient (fuel + 1)
      ⟨dialect, types, compiled.signatures⟩ (compiled.source interpretation).arity
      ((compiled.source interpretation).calls ((compiled.source interpretation).run fuel)) where
  builtin := by
    intro name builtin isBuiltin
    have isBuiltin : (compiled.source interpretation).dialect.lookup name = some builtin := isBuiltin
    funext arguments
    rw [Runnable.calls, isBuiltin]
    rfl
  function := by
    intro name signature arguments resolved fits
    obtain ⟨noBuiltin, index, entry, rfl, isDefinition⟩ :=
      Compiled.entry_of_resolveCall distinct interpretation resolved
    have noBuiltin : (compiled.source interpretation).dialect.lookup name = none := noBuiltin
    have size : arguments.length = entry.definition.parameters.length := by
      simpa [Runnable.arity, noBuiltin, isDefinition] using fits
    have isCall : (compiled.source interpretation).calls
        ((compiled.source interpretation).run fuel) name arguments =
          (compiled.source interpretation).run fuel entry.definition arguments := by
      rw [Runnable.calls, noBuiltin, isDefinition]
    obtain ⟨start, starts, simulates⟩ := follows entry size
    refine ⟨entry.function, start, ?_, starts, ?_⟩
    · rw [entry.describes.id]
      exact entry.isFunction
    · intro callers globals world
      rw [isCall]
      exact simulates callers globals world
  globals := by
    intro name signature resolved
    obtain ⟨-, index, entry, rfl, -⟩ :=
      Compiled.entry_of_resolveCall distinct interpretation resolved
    exact entry.length_results_le distinct

end Follows

/-- Functions do what their definitions do with any amount of fuel. -/
theorem Compiled.follows (compiled : Compiled dialect types program module)
    (distinct : (compiled.definitions.map Definition.name).Nodup)
    (interpretation : Interpretation World)
    (proper : (compiled.source interpretation).isProper lenient = true) (fuel : Nat) :
    Follows compiled interpretation lenient fuel := by
  induction fuel with
  | zero =>
      intro index entry arguments size
      have describes : Describes types index entry.definition entry.origin.signature := by
        rw [entry.origin_signature distinct]
        exact entry.describes
      obtain ⟨start, starts, -⟩ :=
        entry.origin.call? lenient (size.trans describes.length_parameters.symm)
      exact ⟨start, starts, fun _ _ _ => trivial⟩
  | succ fuel ih =>
      intro index entry arguments size
      have describes : Describes types index entry.definition entry.origin.signature := by
        rw [entry.origin_signature distinct]
        exact entry.describes
      have isProper : Statement.areProper (compiled.source interpretation).arity lenient
          entry.definition.body = true :=
        List.all_eq_true.mp proper _ (List.mem_of_getElem? entry.isDefinition)
      have enough : entry.origin.returns.length - 1 ≤ module.globals.length := by
        rw [entry.length_returns distinct]
        exact entry.length_results_le distinct
      have simulates := entry.origin.simulates_exec describes (ih.answers distinct)
        (Nat.le_refl (fuel + 1)) isProper enough size
      rwa [entry.length_returns distinct] at simulates

end Lowering

/-! ## Whole programs -/

/-- A function of a module that is started on arguments does what a source run does. Where the run
gives results, the machine returns: the first result is there directly, and the others are in spill slots.
Where the run goes on for ever, so does the machine. The run never gets stuck, and unless it is lenient it
reads no variable that has no value. -/
structure Ir.Machine.Implements {World : Type} (machine : Ir.Machine World) (lenient : Bool)
    (source : Nat → Except Stop (List Nat × World)) (start : Ir.Config World) : Prop where
  returns : ∀ fuel results world, source fuel = .ok (results, world) →
    ∃ globals, machine.Steps start (.returning results.head? [] globals world) ∧
      ∀ index result, results[index + 1]? = some result → globals ⟨index⟩ = result
  diverges : (∀ fuel, source fuel = .error .outOfFuel) → ∀ count, machine.Lasts count start
  unstuck : ∀ fuel, source fuel ≠ .error .stuck
  assigned : lenient = false → ∀ fuel, source fuel ≠ .error .unassigned

/-- What has been simulated for any amount of fuel has been implemented. -/
theorem Ir.Machine.Implements.of_simulates {World : Type} {machine : Ir.Machine World}
    {lenient : Bool} {source : Nat → Except Stop (List Nat × World)} {start : Ir.Config World}
    {size : Nat}
    (simulates : ∀ fuel, machine.Simulates lenient fuel (source fuel) start
      (Lowering.Returned size [])) : machine.Implements lenient source start where
  returns := by
    intro fuel results world gives
    have simulated := simulates fuel
    rw [gives] at simulated
    obtain ⟨_, steps, -, globals, rfl, others⟩ := simulated
    exact ⟨globals, steps, others⟩
  diverges := by
    intro forever count
    have simulated := simulates count
    rwa [forever count] at simulated
  unstuck := by
    intro fuel stuck
    have simulated := simulates fuel
    rw [stuck] at simulated
    exact simulated
  assigned := by
    intro strict fuel unassigned
    have simulated := simulates fuel
    rw [unassigned, strict] at simulated
    cases simulated

/-- Lowering preserves meaning: whatever builtins do, each function of a lowered module implements the
definition that it has been lowered from. -/
theorem Block.implements_of_toModule {World : Type} {dialect : Dialect}
    {types : Lowering.TypeNames} {name : String} {program : Block} {definitions : List Definition}
    {module : Ir.Module} (interpretation : Interpretation World) (lenient : Bool)
    (areDefinitions : program.definitions = .ok definitions)
    (distinct : (definitions.map Definition.name).Nodup)
    (proper : (⟨dialect, definitions, interpretation⟩ : Runnable World).isProper lenient = true)
    (lowered : program.toModule dialect types name = .ok module) :
    List.Forall₂ (fun definition function => ∀ arguments : List Nat,
        arguments.length = definition.parameters.length →
        ∃ start, function.call? arguments = some start ∧ ∀ globals world,
          (⟨module, interpretation⟩ : Ir.Machine World).Implements lenient
            (fun fuel => (⟨dialect, definitions, interpretation⟩ : Runnable World).run fuel definition
              arguments world)
            (.running start [] globals world))
      definitions module.functions := by
  obtain ⟨compiled⟩ := Lowering.toModule_inv lowered
  obtain rfl : compiled.definitions = definitions :=
    Except.ok.inj (compiled.areDefinitions.symm.trans areDefinitions)
  apply compiled.forall₂_of_entries
  intro index entry arguments size
  have follows := compiled.follows distinct interpretation proper
  obtain ⟨start, starts, -⟩ := follows 0 entry size
  refine ⟨start, starts, ?_⟩
  intro globals world
  apply Ir.Machine.Implements.of_simulates
  intro fuel
  obtain ⟨other, startsOther, simulates⟩ := follows fuel entry size
  obtain rfl := Option.some.inj (startsOther.symm.trans starts)
  exact simulates [] globals world

/-- Two functions that call each other, one of them from within a loop that is left early, and that hand
over several values. -/
def countdown : Block :=
  [.definition "count" [⟨"n", ""⟩] [⟨"r", ""⟩, ⟨"s", ""⟩]
    [.loop [.declaration [⟨"i", ""⟩] (some (.identifier "n"))] (.identifier "i")
      [.assignment ["i"] (.call "dec" [.identifier "i"])]
      [.switch (.identifier "i")
        [⟨some (.number "2" ""), [.continueLoop]⟩, ⟨some (.number "9" ""), [.breakLoop]⟩,
          ⟨none, [.expression (.call "log" [.identifier "i"])]⟩],
        .assignment ["r", "s"] (.call "rest" [.call "dec" [.identifier "i"]])]],
    .definition "rest" [⟨"n", ""⟩] [⟨"u", ""⟩, ⟨"v", ""⟩]
      [.conditional (.identifier "n") [.assignment ["u", "v"] (.call "count" [.identifier "n"])]]]

/-- A builtin that counts down, and one that adds to a log. -/
def countdownBuiltins : Dialect :=
  ⟨.strict, [.untyped "dec" 1 1 true false, .untyped "log" 1 0 false false]⟩

/-- What the builtins do where the external state is a log. -/
def countdownInterpretation : Interpretation (List Nat) := fun name arguments log =>
  if name = "dec" then (arguments.headD 0 - 1, log) else (0, log ++ arguments)

theorem Block.implements_of_toModule_countdown :
    ∃ module, countdown.definitions = .ok countdown.functions ∧
      (countdown.functions.map Definition.name).Nodup ∧
      (⟨countdownBuiltins, countdown.functions, countdownInterpretation⟩ :
        Runnable (List Nat)).isProper false = true ∧
      countdown.toModule countdownBuiltins .standard "m" = .ok module ∧
      List.Forall₂ (fun definition function => ∀ arguments : List Nat,
          arguments.length = definition.parameters.length →
          ∃ start, function.call? arguments = some start ∧ ∀ globals world,
            (⟨module, countdownInterpretation⟩ : Ir.Machine (List Nat)).Implements false
              (fun fuel => (⟨countdownBuiltins, countdown.functions, countdownInterpretation⟩ :
                Runnable (List Nat)).run fuel definition arguments world)
              (.running start [] globals world))
        countdown.functions module.functions := by
  have isOk : (countdown.toModule countdownBuiltins .standard "m").isOk = true := by
    decide +kernel
  have areDefinitions : countdown.definitions = .ok countdown.functions := rfl
  have distinct : (countdown.functions.map Definition.name).Nodup := by decide +kernel
  have proper : (⟨countdownBuiltins, countdown.functions, countdownInterpretation⟩ :
      Runnable (List Nat)).isProper false = true := by decide +kernel
  obtain ⟨module, lowered⟩ := Lowering.exists_of_isOk isOk
  exact ⟨module, areDefinitions, distinct, proper, lowered,
    Block.implements_of_toModule countdownInterpretation false areDefinitions distinct proper lowered⟩

end YulLowering
