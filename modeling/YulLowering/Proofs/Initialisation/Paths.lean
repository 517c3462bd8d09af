import Mathlib.Data.List.Chain
import YulLowering.Proofs.ControlFlow

/-!
# Paths that write before they read

With each block goes a list of slots: whenever control comes to the block, these have been written. If
every block only reads such slots and what it writes itself, and if all edges from it lead to blocks that
ask for no more, then no path of control reads a slot that it has not written. This module says so and
tells what the edits of a draft do to such lists.
-/

namespace YulLowering

namespace Ir

/-! ## Reads and writes in code -/

namespace Instruction

/-- The local slot that the instruction reads. -/
def loaded? : Instruction → Option LocalId
  | load _ (.ofLocal slot) => some slot
  | const _ _ | reserve _ _ | load _ (.ofGlobal _) | store _ _ | call _ _ _ | testNonZero _ _ => none

/-- The local slot that the instruction writes. -/
def stored? : Instruction → Option LocalId
  | store (.ofLocal slot) _ => some slot
  | const _ _ | reserve _ _ | load _ _ | store (.ofGlobal _) _ | call _ _ _ | testNonZero _ _ => none

theorem eq_store_of_stored? {instruction : Instruction} {slot : LocalId}
    (stores : instruction.stored? = some slot) : ∃ value, instruction = .store (.ofLocal slot) value := by
  cases instruction with
  | const | reserve | load | call | testNonZero => cases stores
  | store place value =>
      cases place with
      | ofGlobal => cases stores
      | ofLocal =>
          cases stores
          exact ⟨value, rfl⟩

end Instruction

/-- The local slots that code writes. -/
def writtenBy (code : List Instruction) : List LocalId :=
  code.filterMap Instruction.stored?

@[simp] theorem writtenBy_nil : writtenBy [] = [] := rfl

@[simp] theorem writtenBy_append (code more : List Instruction) :
    writtenBy (code ++ more) = writtenBy code ++ writtenBy more :=
  List.filterMap_append

theorem exists_store_of_mem_writtenBy {code : List Instruction} {slot : LocalId}
    (written : slot ∈ writtenBy code) : ∃ value, .store (.ofLocal slot) value ∈ code := by
  obtain ⟨instruction, member, stores⟩ := List.mem_filterMap.mp written
  obtain ⟨value, rfl⟩ := instruction.eq_store_of_stored? stores
  exact ⟨value, member⟩

/-- Code that only reads slots which have been written in front of it or earlier in it. -/
def WritesFirst (written : List LocalId) (code : List Instruction) : Prop :=
  ∀ before instruction after, code = before ++ instruction :: after →
    ∀ slot, instruction.loaded? = some slot → slot ∈ written ++ writtenBy before

namespace WritesFirst

variable {written : List LocalId} {code : List Instruction}

theorem nil (written : List LocalId) : WritesFirst written [] := by
  intro before instruction after equal
  cases before <;> cases equal

theorem mono {more : List LocalId} (first : WritesFirst written code) (grow : written ⊆ more) :
    WritesFirst more code := by
  intro before instruction after equal slot loads
  rcases List.mem_append.mp (first before instruction after equal slot loads) with outside | inside
  · exact List.mem_append_left _ (grow outside)
  · exact List.mem_append_right _ inside

/-- What the first part of code has written may be read in the second. -/
theorem append {more : List Instruction} (first : WritesFirst written code)
    (second : WritesFirst (written ++ writtenBy code) more) : WritesFirst written (code ++ more) := by
  intro before instruction after equal slot loads
  rcases List.append_eq_append_iff.mp equal with ⟨rest, rfl, isMore⟩ | ⟨rest, rfl, isRest⟩
  · rw [writtenBy_append, ← List.append_assoc]
    exact second rest instruction after isMore slot loads
  · cases rest with
    | nil =>
        rw [List.append_nil] at second
        simpa using second [] instruction after isRest.symm slot loads
    | cons head rest =>
        obtain ⟨rfl, -⟩ := List.cons.inj isRest
        exact first before instruction rest rfl slot loads

theorem single {instruction : Instruction}
    (reads : ∀ slot, instruction.loaded? = some slot → slot ∈ written) :
    WritesFirst written [instruction] := by
  intro before other after equal slot loads
  cases before with
  | nil =>
      cases equal
      exact List.mem_append_left _ (reads slot loads)
  | cons head before => cases before <;> cases equal

end WritesFirst

/-! ## Paths -/

namespace Function

/-- The instructions that run along a path of blocks. -/
def trace (function : Function) (path : List BlockId) : List Instruction :=
  path.flatMap fun id => ((function.block? id).map BasicBlock.instructions).getD []

/-- On every path of control that starts at the entry, a local slot that is read has been written
before. -/
def WritesBeforeReads (function : Function) : Prop :=
  ∀ path, (function.entry :: path).IsChain function.Edge →
    ∀ before dest slot after,
      function.trace (function.entry :: path) = before ++ .load dest (.ofLocal slot) :: after →
        ∃ value, .store (.ofLocal slot) value ∈ before

/-- Slots by the number of a block: whenever control comes to the block they have been written. Each
block only reads these and what it writes itself, and leads to blocks that ask for no more. -/
structure Secures (function : Function) (known : List (List LocalId)) : Prop where
  length : known.length = function.blocks.length
  blocks : ∀ id block written, function.block? id = some block → known[id.index]? = some written →
    WritesFirst written block.instructions ∧
      ∀ target ∈ block.successors, ∃ needed, known[target.index]? = some needed ∧
        needed ⊆ written ++ writtenBy block.instructions

namespace Secures

variable {function : Function} {known : List (List LocalId)}

theorem exists_block (secures : function.Secures known) {id : BlockId} {written : List LocalId}
    (isKnown : known[id.index]? = some written) : ∃ block, function.block? id = some block := by
  obtain ⟨bound, -⟩ := List.getElem?_eq_some_iff.mp isKnown
  rw [secures.length] at bound
  exact ⟨_, List.getElem?_eq_getElem bound⟩

/-- Along a path everything that is read has been written, on the path or in front of it. -/
theorem writesFirst_trace (secures : function.Secures known) (path : List BlockId) {id : BlockId}
    {needed written : List LocalId} (chain : (id :: path).IsChain function.Edge)
    (isKnown : known[id.index]? = some needed) (enough : needed ⊆ written) :
    WritesFirst written (function.trace (id :: path)) := by
  induction path generalizing id needed written with
  | nil =>
      obtain ⟨block, found⟩ := secures.exists_block isKnown
      simpa [trace, found] using (secures.blocks id block needed found isKnown).1.mono enough
  | cons target path ih =>
      obtain ⟨block, found⟩ := secures.exists_block isKnown
      obtain ⟨first, leads⟩ := secures.blocks id block needed found isKnown
      obtain ⟨⟨terminator, isExit, isTarget⟩, chain⟩ := List.isChain_cons_cons.mp chain
      rw [exit?, found] at isExit
      cases isExit
      obtain ⟨wanted, targetKnown, provided⟩ := leads target isTarget
      have split : function.trace (id :: target :: path) =
          block.instructions ++ function.trace (target :: path) := by
        simp [trace, found]
      rw [split]
      refine (first.mono enough).append (ih chain targetKnown ?_)
      intro slot isWanted
      rcases List.mem_append.mp (provided isWanted) with outside | inside
      · exact List.mem_append_left _ (enough outside)
      · exact List.mem_append_right _ inside

/-- Where nothing is known at the entry, all paths from there write before they read. -/
theorem writesBeforeReads (secures : function.Secures known)
    (entry : known[function.entry.index]? = some []) : function.WritesBeforeReads := by
  intro path chain before dest slot after equal
  have written := secures.writesFirst_trace path chain entry (List.Subset.refl [])
    before (.load dest (.ofLocal slot)) after equal slot rfl
  exact exists_store_of_mem_writtenBy (by simpa using written)

end Secures

end Function

/-! ## Edits -/

namespace Draft

variable {draft : Draft} {known : List (List LocalId)} {slot : LocalId}

/-- What has been written in front of an instruction has been written after it. -/
theorem mem_written_append {block : BasicBlock} {written : List LocalId}
    (member : slot ∈ written ++ writtenBy block.instructions) (instruction : Instruction) :
    slot ∈ written ++ writtenBy (block.append instruction).instructions := by
  show slot ∈ written ++ writtenBy (block.instructions ++ [instruction])
  rw [writtenBy_append, ← List.append_assoc]
  exact List.mem_append_left _ member

/-- At the end of the block under the cursor, a slot has been written. -/
def HasWritten (draft : Draft) (known : List (List LocalId)) (slot : LocalId) : Prop :=
  ∃ block written, draft.function.block? draft.cursor = some block ∧
    known[draft.cursor.index]? = some written ∧ slot ∈ written ++ writtenBy block.instructions

theorem HasWritten.write (hasWritten : draft.HasWritten known slot) (instruction : Instruction) :
    (draft.write instruction).HasWritten known slot := by
  obtain ⟨block, written, found, isKnown, member⟩ := hasWritten
  refine ⟨block.append instruction, written, by simp [block?_write, found], isKnown, ?_⟩
  exact mem_written_append member instruction

theorem HasWritten.reserve (hasWritten : draft.HasWritten known slot) (name : String)
    (type : ValueType) : (draft.reserve name type).2.HasWritten known slot := by
  obtain ⟨block, written, found, isKnown, member⟩ := hasWritten
  unfold HasWritten
  rw [block?_reserve, cursor_reserve, found]
  split
  · exact ⟨_, written, rfl, isKnown, mem_written_append member _⟩
  · exact ⟨block, written, rfl, isKnown, member⟩

theorem HasWritten.newBlock (hasWritten : draft.HasWritten known slot) (label : String)
    (more : List (List LocalId)) : (draft.newBlock label).2.HasWritten (known ++ more) slot := by
  obtain ⟨block, written, found, isKnown, member⟩ := hasWritten
  have old : draft.cursor ≠ draft.nextBlock := by
    intro same
    rw [same, block?_nextBlock] at found
    cases found
  exact ⟨block, written, by simp [block?_newBlock, old, found],
    getElem?_of_prefix (List.prefix_append known more) isKnown, member⟩

/-- A slot that is stored to has been written. -/
theorem hasWritten_store (secures : draft.function.Secures known)
    (present : (known[draft.cursor.index]?).isSome) (slot : LocalId) (value : Value) :
    (draft.write (.store (.ofLocal slot) value)).HasWritten known slot := by
  obtain ⟨written, isKnown⟩ := Option.isSome_iff_exists.mp present
  obtain ⟨block, found⟩ := secures.exists_block isKnown
  refine ⟨block.append (.store (.ofLocal slot) value), written, by simp [block?_write, found],
    isKnown, ?_⟩
  simp [BasicBlock.append, writtenBy, Instruction.stored?]

/-- What is known of a block has been written where the cursor comes to it. -/
theorem hasWritten_moveTo (secures : draft.function.Secures known) {id : BlockId}
    {written : List LocalId} (isKnown : known[id.index]? = some written) (member : slot ∈ written) :
    (draft.moveTo id).HasWritten known slot := by
  obtain ⟨block, found⟩ := secures.exists_block isKnown
  exact ⟨block, written, found, isKnown, List.mem_append_left _ member⟩

/-- An instruction may read what has been written. -/
theorem secures_write (secures : draft.function.Secures known) (instruction : Instruction)
    (reads : ∀ slot, instruction.loaded? = some slot → draft.HasWritten known slot) :
    (draft.write instruction).function.Secures known where
  length := by rw [length_blocks_write, secures.length]
  blocks := by
    intro id block written found isKnown
    rw [block?_write] at found
    split at found
    · next here =>
      obtain ⟨before, foundBefore, rfl⟩ := Option.map_eq_some_iff.mp found
      obtain ⟨first, leads⟩ := secures.blocks id before written foundBefore isKnown
      refine ⟨first.append (.single ?_), ?_⟩
      · intro slot loads
        obtain ⟨current, content, isCurrent, isContent, member⟩ := reads slot loads
        rw [here, foundBefore] at isCurrent
        rw [here, isKnown] at isContent
        cases isCurrent
        cases isContent
        exact member
      · intro target isTarget
        obtain ⟨needed, targetKnown, provided⟩ := leads target isTarget
        exact ⟨needed, targetKnown, fun slot isNeeded =>
          mem_written_append (provided isNeeded) instruction⟩
    · exact secures.blocks id block written found isKnown

/-- Edges may lead to blocks for which enough has been written. -/
theorem secures_close (secures : draft.function.Secures known) {terminator : Terminator}
    (leads : ∀ target ∈ terminator.successors, ∃ needed, known[target.index]? = some needed ∧
      ∀ slot ∈ needed, draft.HasWritten known slot) :
    (draft.close terminator).function.Secures known where
  length := by rw [length_blocks_close, secures.length]
  blocks := by
    intro id block written found isKnown
    rw [block?_close] at found
    split at found
    · next here =>
      obtain ⟨before, foundBefore, rfl⟩ := Option.map_eq_some_iff.mp found
      refine ⟨(secures.blocks id before written foundBefore isKnown).1, ?_⟩
      intro target isTarget
      obtain ⟨needed, targetKnown, provided⟩ := leads target isTarget
      refine ⟨needed, targetKnown, ?_⟩
      intro slot isNeeded
      obtain ⟨current, content, isCurrent, isContent, member⟩ := provided slot isNeeded
      rw [here, foundBefore] at isCurrent
      rw [here, isKnown] at isContent
      cases isCurrent
      cases isContent
      exact member
    · exact secures.blocks id block written found isKnown

theorem secures_newBlock (secures : draft.function.Secures known) (label : String)
    (written : List LocalId) :
    (draft.newBlock label).2.function.Secures (known ++ [written]) where
  length := by simp [secures.length]
  blocks := by
    intro id block content found isKnown
    rw [block?_newBlock] at found
    split at found
    · cases found
      exact ⟨.nil content, fun target isTarget => by cases isTarget⟩
    · next old =>
      obtain ⟨bound, -⟩ := List.getElem?_eq_some_iff.mp found
      rw [← secures.length] at bound
      rw [List.getElem?_append_left bound] at isKnown
      obtain ⟨first, leads⟩ := secures.blocks id block content found isKnown
      refine ⟨first, ?_⟩
      intro target isTarget
      obtain ⟨needed, targetKnown, provided⟩ := leads target isTarget
      exact ⟨needed, getElem?_of_prefix (List.prefix_append _ _) targetKnown, provided⟩

theorem secures_reserve (secures : draft.function.Secures known) (name : String)
    (type : ValueType) : (draft.reserve name type).2.function.Secures known where
  length := by rw [length_blocks_reserve, secures.length]
  blocks := by
    intro id block written found isKnown
    rw [block?_reserve] at found
    split at found
    · obtain ⟨before, foundBefore, rfl⟩ := Option.map_eq_some_iff.mp found
      obtain ⟨first, leads⟩ := secures.blocks id before written foundBefore isKnown
      refine ⟨first.append (.single fun slot loads => by cases loads), ?_⟩
      intro target isTarget
      obtain ⟨needed, targetKnown, provided⟩ := leads target isTarget
      exact ⟨needed, targetKnown, fun slot isNeeded => mem_written_append (provided isNeeded) _⟩
    · exact secures.blocks id block written found isKnown

end Draft

end Ir

end YulLowering
