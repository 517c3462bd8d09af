import YulLowering.Ir.Instruction
import YulLowering.Lowering.Fault

/-!
# Loop targets

`break` and `continue` refer to the innermost loop around them.
-/

namespace YulLowering.Lowering

/-- Where the loop exits of one loop lead. -/
structure LoopFrame where
  onBreak : Ir.BlockId
  onContinue : Ir.BlockId
deriving DecidableEq, Repr, Inhabited

/-- The target of a loop exit. -/
def LoopFrame.target (targets : LoopFrame) : LoopExit → Ir.BlockId
  | .breakLoop => targets.onBreak
  | .continueLoop => targets.onContinue

/-- The loops around a statement, the innermost first. -/
structure Loops where
  enclosing : List LoopFrame
deriving DecidableEq, Repr, Inhabited

namespace Loops

/-- No loop at all. -/
def empty : Loops :=
  ⟨[]⟩

/-- Enter a loop. -/
def enter (loops : Loops) (targets : LoopFrame) : Loops :=
  ⟨targets :: loops.enclosing⟩

/-- Leave the innermost loop. -/
def leave (loops : Loops) : Loops :=
  ⟨loops.enclosing.tail⟩

/-- Leaving a loop undoes entering it. -/
@[simp] theorem leave_enter (loops : Loops) (targets : LoopFrame) :
    (loops.enter targets).leave = loops := rfl

/-- The innermost loop. -/
def innermost? (loops : Loops) : Option LoopFrame :=
  loops.enclosing.head?

/-- Where a loop exit leads from here. -/
def target (loops : Loops) (exit : LoopExit) : Except Fault Ir.BlockId :=
  match loops.innermost? with
  | some targets => .ok (targets.target exit)
  | none => .error (.outsideLoop exit)

/-- How many loops there are. -/
def depth (loops : Loops) : Nat :=
  loops.enclosing.length

end Loops

end YulLowering.Lowering
