import Mathlib.Logic.Relation
import YulLowering.Ir.Module

/-!
# The meaning of modules

A module is run by a machine that takes one instruction or one terminator at a time. It keeps a frame
for each function that has been called and has not returned. A local slot is there once it has been
reserved and has a value once something has been stored to it; the shared slots have values from the
start, which may be any. The machine cannot go on where something is used that is not there.
-/

namespace YulLowering.Ir

/-- A function that is being run. -/
structure Frame where
  function : Function
  /-- What is left of the block that is being run. -/
  code : List Instruction
  terminator : Terminator
  values : ValueId → Option Nat
  /-- The slots that have been reserved, with what has been stored to them. -/
  locals : LocalId → Option (Option Nat)

namespace Frame

variable (frame : Frame)

/-- Go on behind the next instruction. -/
def advance : Frame :=
  { frame with code := frame.code.tail }

/-- Define a value. -/
def define (dest : Value) (content : Nat) : Frame :=
  { frame with values := fun id => if id = dest.id then some content else frame.values id }

/-- Reserve a slot or store to it. -/
def set (slot : LocalId) (content : Option Nat) : Frame :=
  { frame with locals := fun id => if id = slot then some content else frame.locals id }

/-- The values of operands. -/
def read (operands : List Value) : Option (List Nat) :=
  operands.mapM fun operand => frame.values operand.id

/-- Go on at the start of a block. -/
def enter? (target : BlockId) : Option Frame :=
  (frame.function.block? target).map fun block =>
    { frame with code := block.instructions, terminator := block.terminator }

/-- Take the result of a call. Where no result is wanted, one that is there is ignored. -/
def accept? (dest : Option Value) (result : Option Nat) : Option Frame :=
  match dest, result with
  | none, _ => some frame
  | some dest, some content => some (frame.define dest content)
  | some _, none => none

end Frame

/-- Start a function on arguments. There have to be as many as it has parameters. -/
def Function.call? (function : Function) (arguments : List Nat) : Option Frame :=
  if arguments.length = function.parameters.length then
    (function.block? function.entry).map fun block =>
      { function := function
        code := block.instructions
        terminator := block.terminator
        values := fun id => ((function.parameters.map Value.id).zip arguments).lookup id
        locals := fun _ => none }
  else none

/-- A function that waits for the result of a call. -/
structure Caller where
  frame : Frame
  dest : Option Value

/-- What the machine is doing. -/
inductive Config (World : Type) where
  | running (frame : Frame) (callers : List Caller) (globals : GlobalId → Nat) (world : World)
  /-- A function has returned to its caller, or it was the first one and the machine has stopped. -/
  | returning (result : Option Nat) (callers : List Caller) (globals : GlobalId → Nat)
    (world : World)

/-- A module that can be run: builtins have been given a meaning. -/
structure Machine (World : Type) where
  module : Module
  interpretation : String → List Nat → World → Nat × World

/-- The block that a switch leads to. -/
def switchTarget (cases : List (Nat × BlockId)) (default : BlockId) (content : Nat) : BlockId :=
  ((cases.find? fun arm => arm.1 == content).map Prod.snd).getD default

namespace Machine

variable {World : Type} (machine : Machine World)

/-- Whether the module has a shared slot. -/
def declares (slot : GlobalId) : Prop :=
  slot.index < machine.module.globals.length

instance (slot : GlobalId) : Decidable (machine.declares slot) :=
  inferInstanceAs (Decidable (_ < _))

section

variable (frame : Frame) (callers : List Caller) (globals : GlobalId → Nat) (world : World)

/-- Take an instruction. The frame stands behind it already. -/
def execute : Instruction → Option (Config World)
  | .const dest constant => some (.running (frame.define dest constant) callers globals world)
  | .reserve slot _ => some (.running (frame.set slot none) callers globals world)
  | .load dest (.ofLocal slot) =>
    match frame.locals slot with
    | some (some content) => some (.running (frame.define dest content) callers globals world)
    | _ => none
  | .load dest (.ofGlobal slot) =>
    if machine.declares slot then
      some (.running (frame.define dest (globals slot)) callers globals world)
    else none
  | .store (.ofLocal slot) value =>
    match frame.locals slot, frame.values value.id with
    | some _, some content => some (.running (frame.set slot (some content)) callers globals world)
    | _, _ => none
  | .store (.ofGlobal slot) value =>
    match frame.values value.id with
    | some content =>
      if machine.declares slot then
        some (.running frame callers
          (fun other => if other = slot then content else globals other) world)
      else none
    | none => none
  | .call dest (.builtin name _) arguments =>
    match frame.read arguments with
    | some contents =>
      let (result, world) := machine.interpretation name contents world
      (frame.accept? dest (some result)).map fun frame => .running frame callers globals world
    | none => none
  | .call dest (.function id) arguments =>
    match machine.module.function? id, frame.read arguments with
    | some callee, some contents =>
      (callee.call? contents).map fun inner =>
        .running inner (⟨frame, dest⟩ :: callers) globals world
    | _, _ => none
  | .testNonZero dest operand =>
    match frame.values operand.id with
    | some content =>
      some (.running (frame.define dest (if content = 0 then 0 else 1)) callers globals world)
    | none => none

/-- Go to a block of the function that is being run. -/
def goTo (target : BlockId) : Option (Config World) :=
  (frame.enter? target).map fun frame => .running frame callers globals world

/-- Take a terminator. -/
def leave : Terminator → Option (Config World)
  | .jump target => goTo frame callers globals world target
  | .branch condition onTrue onFalse =>
    match frame.values condition.id with
    | some content =>
      goTo frame callers globals world (if content = 0 then onFalse else onTrue)
    | none => none
  | .switch scrutinee cases default =>
    match frame.values scrutinee.id with
    | some content => goTo frame callers globals world (switchTarget cases default content)
    | none => none
  | .ret none => some (.returning none callers globals world)
  | .ret (some value) =>
    match frame.values value.id with
    | some content => some (.returning (some content) callers globals world)
    | none => none
  | .unreachable => none

end

/-- One step of the machine. There is none once it has stopped. -/
def step : Config World → Option (Config World)
  | .running frame callers globals world =>
    match frame.code with
    | instruction :: _ => machine.execute frame.advance callers globals world instruction
    | [] => leave frame callers globals world frame.terminator
  | .returning result (⟨frame, dest⟩ :: callers) globals world =>
    (frame.accept? dest result).map fun frame => .running frame callers globals world
  | .returning _ [] _ _ => none

/-- Any number of steps. -/
abbrev Steps : Config World → Config World → Prop :=
  Relation.ReflTransGen fun config later => machine.step config = some later

/-- The machine can take a number of steps. -/
def Lasts : Nat → Config World → Prop
  | 0, _ => True
  | count + 1, config => ∃ later, machine.step config = some later ∧ Lasts count later

variable {machine}

theorem Lasts.of_succ {count : Nat} {config : Config World}
    (lasts : machine.Lasts (count + 1) config) : machine.Lasts count config := by
  induction count generalizing config with
  | zero => trivial
  | succ count ih =>
      obtain ⟨later, steps, lasts⟩ := lasts
      exact ⟨later, steps, ih lasts⟩

theorem Lasts.mono {count fewer : Nat} {config : Config World}
    (lasts : machine.Lasts count config) (le : fewer ≤ count) : machine.Lasts fewer config := by
  induction le with
  | refl => exact lasts
  | step _ ih => exact ih lasts.of_succ

/-- Steps that come first do not shorten a run. -/
theorem Lasts.of_steps {count : Nat} {config later : Config World}
    (steps : machine.Steps config later) (lasts : machine.Lasts count later) :
    machine.Lasts count config := by
  induction steps using Relation.ReflTransGen.head_induction_on with
  | refl => exact lasts
  | head step _ ih => exact Lasts.of_succ ⟨_, step, ih⟩

end Machine

end YulLowering.Ir
