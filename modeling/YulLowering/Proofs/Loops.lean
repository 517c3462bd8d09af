import YulLowering.Lowering.Statements

/-!
# The parts of a lowered loop

A loop is lowered in three parts: the statements in front of it, the making of its blocks, and its rounds.
What is said about loops elsewhere is said about each part, whatever its condition and its bodies write.
-/

namespace YulLowering

namespace Lowering

/-- Make the blocks of a loop for its head, its body, its step and what comes after it. -/
def withLoopBlocks {α : Type}
    (next : Ir.BlockId → Ir.BlockId → Ir.BlockId → Ir.BlockId → Step α) : Step α := do
  let head ← newBlock "for.cond"
  let body ← newBlock "for.body"
  let step ← newBlock "for.post"
  let done ← newBlock "for.exit"
  next head body step done

/-- Write the rounds of a loop into blocks that have been made. -/
def loopRounds (head body step done : Ir.BlockId) (condition : Step Ir.Value) (inside advance : Step Unit) :
    Step Unit := do
  Step.modify fun draft => (draft.fallThrough head).moveTo head
  let value ← condition
  Step.modify fun draft => (draft.close (.branch value body done)).moveTo body
  Step.inLoop ⟨done, step⟩ (Step.inBlock inside)
  Step.modify fun draft => (draft.fallThrough step).moveTo step
  Step.inBlock advance
  Step.modify fun draft => (draft.fallThrough head).moveTo done

end Lowering

open Lowering

theorem Statement.lower_loop (context : Context) (init : List Statement) (condition : Expression)
    (step body : List Statement) :
    (Statement.loop init condition step body).lower context = (do
      let initBlock ← newBlock "for.init"
      Step.modify fun draft => (draft.jump initBlock).moveTo initBlock
      Step.inBlock do
        Statement.lowerEach context init
        withLoopBlocks fun head bodyBlock stepBlock done =>
          loopRounds head bodyBlock stepBlock done (condition.lowerToCondition context)
            (Statement.lowerEach context body) (Statement.lowerEach context step)) := by
  rw [Statement.lower]
  rfl

end YulLowering
