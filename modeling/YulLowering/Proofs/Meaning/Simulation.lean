import YulLowering.Proofs.Meaning.Machine
import YulLowering.Proofs.Meaning.Source

/-!
# Simulation

A machine simulates a source run if it gets somewhere that fits the result where the source run has
one, and takes as many steps as are asked for where the source run is out of fuel. A source run that
is stuck cannot be simulated, and one that has read a variable without a value is simulated by
anything, if that is allowed at all.
-/

namespace YulLowering

variable {World α β : Type}

/-- What the result of one computation is used for in another. -/
theorem Eval.bind_apply (first : Eval World α) (next : α → Eval World β) (world : World) :
    (first >>= next) world =
      match first world with
      | .ok (result, world) => next result world
      | .error stop => .error stop := by
  show StateT.bind first next world = _
  unfold StateT.bind
  cases first world <;> rfl

namespace Ir.Machine

/-- The machine simulates a source run. It is asked for `count` steps if the source run is out of
fuel, and `lenient` tells whether the source run may read variables that have no value. -/
def Simulates (machine : Machine World) (lenient : Bool) (count : Nat)
    (source : Except Stop (α × World)) (config : Config World)
    (post : α → World → Config World → Prop) : Prop :=
  match source with
  | .ok (result, world) => ∃ later, machine.Steps config later ∧ post result world later
  | .error .outOfFuel => machine.Lasts count config
  | .error .unassigned => lenient = true
  | .error .stuck => False

namespace Simulates

variable {machine : Machine World} {lenient : Bool} {count : Nat} {config : Config World}
  {source : Except Stop (α × World)} {post : α → World → Config World → Prop}

theorem ok {result : α} {world : World} (holds : post result world config) :
    machine.Simulates lenient count (.ok (result, world)) config post :=
  ⟨config, .refl, holds⟩

/-- Steps that the machine takes first. -/
theorem of_steps {later : Config World} (steps : machine.Steps config later)
    (simulates : machine.Simulates lenient count source later post) :
    machine.Simulates lenient count source config post := by
  cases source with
  | ok pair =>
      obtain ⟨last, more, holds⟩ := simulates
      exact ⟨last, steps.trans more, holds⟩
  | error stop =>
      cases stop with
      | stuck => exact simulates
      | unassigned => exact simulates
      | outOfFuel => exact Lasts.of_steps steps simulates

theorem mono {weaker : α → World → Config World → Prop}
    (simulates : machine.Simulates lenient count source config post)
    (weaken : ∀ result world later, post result world later → weaker result world later) :
    machine.Simulates lenient count source config weaker := by
  cases source with
  | ok pair =>
      obtain ⟨last, steps, holds⟩ := simulates
      exact ⟨last, steps, weaken _ _ last holds⟩
  | error stop => cases stop <;> exact simulates

/-- What the source run gives is known when it has ended. -/
theorem knowing (simulates : machine.Simulates lenient count source config post) :
    machine.Simulates lenient count source config fun result world later =>
      source = .ok (result, world) ∧ post result world later := by
  cases source with
  | ok pair =>
      obtain ⟨last, steps, holds⟩ := simulates
      exact ⟨last, steps, rfl, holds⟩
  | error stop => cases stop <;> exact simulates

/-- Steps that the machine takes afterwards. -/
theorem andSteps {last : α → World → Config World → Prop}
    (simulates : machine.Simulates lenient count source config post)
    (steps : ∀ result world later, post result world later →
      ∃ finish, machine.Steps later finish ∧ last result world finish) :
    machine.Simulates lenient count source config last := by
  cases source with
  | ok pair =>
      obtain ⟨later, first, holds⟩ := simulates
      obtain ⟨finish, more, holdsLast⟩ := steps _ _ later holds
      exact ⟨finish, first.trans more, holdsLast⟩
  | error stop => cases stop <;> exact simulates

/-- Fewer steps may be asked for. -/
theorem fewer {smaller : Nat} (simulates : machine.Simulates lenient count source config post)
    (le : smaller ≤ count) : machine.Simulates lenient smaller source config post := by
  cases source with
  | ok pair => exact simulates
  | error stop =>
      cases stop with
      | stuck => exact simulates
      | unassigned => exact simulates
      | outOfFuel => exact Lasts.mono simulates le

/-- A step of the machine that comes first counts where the source run is out of fuel. -/
theorem of_step {later : Config World} (step : machine.step config = some later)
    (simulates : machine.Simulates lenient count source later post) :
    machine.Simulates lenient (count + 1) source config post := by
  cases source with
  | ok pair => exact of_steps (.single step) simulates
  | error stop =>
      cases stop with
      | stuck => exact simulates
      | unassigned => exact simulates
      | outOfFuel => exact ⟨later, step, simulates⟩

/-- Two computations one after the other. -/
theorem bind {first : Eval World α} {next : α → Eval World β} {world : World}
    {between : α → World → Config World → Prop} {post : β → World → Config World → Prop}
    (simulates : machine.Simulates lenient count (first world) config between)
    (goesOn : ∀ result world later, between result world later →
      machine.Simulates lenient count (next result world) later post) :
    machine.Simulates lenient count ((first >>= next) world) config post := by
  rw [Eval.bind_apply]
  cases run : first world with
  | ok pair =>
      rw [run] at simulates
      obtain ⟨later, steps, holds⟩ := simulates
      exact of_steps steps (goesOn _ _ later holds)
  | error stop =>
      rw [run] at simulates
      cases stop <;> exact simulates

end Simulates

end Ir.Machine

end YulLowering
