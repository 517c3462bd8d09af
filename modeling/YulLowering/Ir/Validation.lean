import YulLowering.Ir.Module

/-!
# Structural validation

A function is well formed when it has a block, its entry exists, every edge of its control flow ends
at a block, and control never reaches an open block. Blocks that control cannot reach may stay open.
The search for an open block runs over a worklist, deepest edge first, and reports the first open
block that it meets.
-/

namespace YulLowering.Ir

/-- What can be wrong with the structure of a function. -/
inductive StructuralFault where
  | noBlocks
  | missingEntry (entry : BlockId)
  | danglingEdge (source target : BlockId)
  | openBlock (block : BlockId)
deriving DecidableEq, Repr, Inhabited

namespace StructuralFault

/-- The words for a structural fault. -/
def message : StructuralFault → String
  | noBlocks => "Function has no blocks"
  | missingEntry entry => s!"Entry block bb{entry.index} does not exist"
  | danglingEdge source target =>
    s!"Block bb{source.index} references non-existent successor bb{target.index}"
  | openBlock block => s!"Reachable block bb{block.index} has no terminator"

end StructuralFault

namespace Function

/-- The first edge, in block order, that ends at no block. -/
def danglingEdge? (function : Function) : Option (BlockId × BlockId) :=
  function.blocks.findSome? fun block =>
    (block.successors.find? fun target => (function.block? target).isNone).map
      fun target => (block.id, target)

/-- How many block positions a search has not seen yet. -/
def unseenCount (function : Function) (seen : List BlockId) : Nat :=
  ((List.range function.blocks.length).filter fun index => ⟨index⟩ ∉ seen).length

/-- Seeing one more block leaves fewer unseen ones. -/
theorem unseenCount_cons_lt (function : Function) {seen : List BlockId} {id : BlockId}
    {block : BasicBlock} (found : function.block? id = some block) (fresh : id ∉ seen) :
    function.unseenCount (id :: seen) < function.unseenCount seen := by
  have inRange : id.index < function.blocks.length :=
    (List.getElem?_eq_some_iff.mp found).1
  have split : ((List.range function.blocks.length).filter fun index => ⟨index⟩ ∉ id :: seen) =
      ((List.range function.blocks.length).filter fun index => ⟨index⟩ ∉ seen).filter
        fun index => (⟨index⟩ : BlockId) ≠ id := by
    simp [List.filter_filter, not_or]
  rw [unseenCount, unseenCount, split, List.length_filter_lt_length_iff_exists]
  exact ⟨id.index, by simp [inRange, fresh], by simp⟩

/-- Search the blocks that `pending` leads to, skipping those already seen, for one that is open. -/
def openBlockFrom? (function : Function) (seen pending : List BlockId) : Option BlockId :=
  match pending with
  | [] => none
  | id :: rest =>
    match _found : function.block? id with
    | none => function.openBlockFrom? seen rest
    | some block =>
      if _fresh : id ∉ seen then
        if block.isClosed then
          function.openBlockFrom? (id :: seen) (block.successors.reverse ++ rest)
        else
          some block.id
      else
        function.openBlockFrom? seen rest
termination_by (function.unseenCount seen, pending.length)
decreasing_by
  · exact Prod.Lex.right _ (by simp)
  · exact Prod.Lex.left _ _ (function.unseenCount_cons_lt _found _fresh)
  · exact Prod.Lex.right _ (by simp)

/-- The first structural fault of a function. -/
def fault? (function : Function) : Option StructuralFault :=
  if function.blocks.isEmpty then
    some .noBlocks
  else if (function.block? function.entry).isNone then
    some (.missingEntry function.entry)
  else
    match function.danglingEdge? with
    | some (source, target) => some (.danglingEdge source target)
    | none => (function.openBlockFrom? [] [function.entry]).map .openBlock

end Function

namespace Module

/-- One message for each function with a structural fault, in function order. -/
def problems (module : Module) : List String :=
  module.functions.zipIdx.filterMap fun (function, index) =>
    function.fault?.map fun fault => s!"Function '{function.name}' ({index}): {fault.message}"

end Module

end YulLowering.Ir
