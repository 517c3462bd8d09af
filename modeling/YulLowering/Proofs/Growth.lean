import YulLowering.Proofs.Drafts

/-!
# Growth of a function

While a function is lowered it only grows: what has been written stays, a closed block keeps its
terminator, and nothing is added to it any more but, if it is the entry block, the reservations of
slots that are declared later. Growth relates any moment of a lowering to any later one, so it also
relates it to the finished function.
-/

namespace YulLowering.Ir

namespace Function

/-- The reservations that the entry block has received between two moments. -/
def reservationsSince (older newer : Function) : List Instruction :=
  (newer.locals.drop older.locals.length).map fun slot => .reserve slot.id slot.type

/-- Reservations over a longer time are those of its parts. -/
theorem reservationsSince_append {older middle newer : Function}
    (first : older.locals <+: middle.locals) (second : middle.locals <+: newer.locals) :
    older.reservationsSince middle ++ middle.reservationsSince newer =
      older.reservationsSince newer := by
  obtain ⟨declared, middleEq⟩ := first
  obtain ⟨later, newerEq⟩ := second
  simp [reservationsSince, ← middleEq, ← newerEq]

/-- What holds between a moment of a lowering and a later one. -/
structure Grows (older newer : Function) : Prop where
  name : newer.name = older.name
  parameters : newer.parameters = older.parameters
  resultType : newer.resultType = older.resultType
  resultCount : newer.resultCount = older.resultCount
  entry : newer.entry = older.entry
  locals : older.locals <+: newer.locals
  valueSupply : older.valueSupply ≤ newer.valueSupply
  /-- A closed block is finished, but for reservations if it is the entry block. -/
  closed : ∀ {id block}, older.block? id = some block → block.isClosed = true →
    ∃ later, newer.block? id = some later ∧ later.terminator = block.terminator ∧
      later.instructions = block.instructions ++
        if id = older.entry then older.reservationsSince newer else []
  /-- Instructions of any block stay in front of those that are written later. -/
  kept : ∀ {id block}, older.block? id = some block →
    ∃ later, newer.block? id = some later ∧ block.instructions <+: later.instructions

namespace Grows

theorem refl (function : Function) : function.Grows function where
  name := rfl
  parameters := rfl
  resultType := rfl
  resultCount := rfl
  entry := rfl
  locals := List.prefix_refl _
  valueSupply := Nat.le_refl _
  closed := by
    intro id block found _
    exact ⟨block, found, rfl, by simp [reservationsSince]⟩
  kept := by
    intro id block found
    exact ⟨block, found, List.prefix_refl _⟩

theorem trans {older middle newer : Function} (first : older.Grows middle)
    (second : middle.Grows newer) : older.Grows newer where
  name := second.name.trans first.name
  parameters := second.parameters.trans first.parameters
  resultType := second.resultType.trans first.resultType
  resultCount := second.resultCount.trans first.resultCount
  entry := second.entry.trans first.entry
  locals := first.locals.trans second.locals
  valueSupply := Nat.le_trans first.valueSupply second.valueSupply
  closed := by
    intro id block found isClosed
    obtain ⟨between, foundBetween, sameTerminator, betweenEq⟩ := first.closed found isClosed
    have stillClosed : between.isClosed = true := by
      simpa [BasicBlock.isClosed, sameTerminator] using isClosed
    obtain ⟨later, foundLater, terminatorEq, laterEq⟩ := second.closed foundBetween stillClosed
    refine ⟨later, foundLater, terminatorEq.trans sameTerminator, ?_⟩
    rw [laterEq, betweenEq, first.entry, List.append_assoc]
    congr 1
    split
    · exact reservationsSince_append first.locals second.locals
    · rfl
  kept := by
    intro id block found
    obtain ⟨between, foundBetween, firstPrefix⟩ := first.kept found
    obtain ⟨later, foundLater, secondPrefix⟩ := second.kept foundBetween
    exact ⟨later, foundLater, firstPrefix.trans secondPrefix⟩

theorem isSome_block? {older newer : Function} (grows : older.Grows newer) {id : BlockId}
    (present : (older.block? id).isSome) : (newer.block? id).isSome := by
  obtain ⟨block, found⟩ := Option.isSome_iff_exists.mp present
  obtain ⟨later, foundLater, _⟩ := grows.kept found
  simp [foundLater]

end Grows

end Function

namespace Draft

/-! ## Each edit lets the function grow -/

/-- An edit of the open block under the cursor that leaves its instructions in front. -/
theorem grows_modifyBlock {draft : Draft} (isOpen : draft.IsOpen) {edit : BasicBlock → BasicBlock}
    (keeps : ∀ block, block.instructions <+: (edit block).instructions) :
    draft.function.Grows (draft.function.modifyBlock draft.cursor edit) where
  name := rfl
  parameters := rfl
  resultType := rfl
  resultCount := rfl
  entry := rfl
  locals := List.prefix_refl _
  valueSupply := Nat.le_refl _
  closed := by
    intro id block found isClosed
    obtain ⟨current, foundCurrent, unset⟩ := isOpen
    have elsewhere : draft.cursor ≠ id := by
      rintro rfl
      simp_all
    exact ⟨block, by simp [Function.block?_modifyBlock, elsewhere, found], rfl,
      by simp [Function.reservationsSince, Function.modifyBlock]⟩
  kept := by
    intro id block found
    rw [Function.block?_modifyBlock]
    split
    · exact ⟨edit block, by simp [found], keeps block⟩
    · exact ⟨block, found, List.prefix_refl _⟩

theorem grows_write {draft : Draft} (isOpen : draft.IsOpen) (instruction : Instruction) :
    draft.function.Grows (draft.write instruction).function := by
  have appended : draft.function.Grows
      (draft.function.modifyBlock draft.cursor fun block => block.append instruction) :=
    grows_modifyBlock isOpen fun block => List.prefix_append block.instructions [instruction]
  -- The number of its result is all that the instruction takes outside of its block.
  exact { appended with valueSupply := Nat.le_add_right _ _ }

theorem grows_close {draft : Draft} (isOpen : draft.IsOpen) (terminator : Terminator) :
    draft.function.Grows (draft.close terminator).function :=
  grows_modifyBlock isOpen fun _ => List.prefix_refl _

theorem grows_newBlock (draft : Draft) (label : String) :
    draft.function.Grows (draft.newBlock label).2.function where
  name := rfl
  parameters := rfl
  resultType := rfl
  resultCount := rfl
  entry := rfl
  locals := List.prefix_refl _
  valueSupply := Nat.le_refl _
  closed := by
    intro id block found _
    have old : id ≠ draft.nextBlock := by
      rintro rfl
      simp [nextBlock, Function.block?] at found
    exact ⟨block, by simp [block?_newBlock, old, found], rfl,
      by simp [Function.reservationsSince]⟩
  kept := by
    intro id block found
    have old : id ≠ draft.nextBlock := by
      rintro rfl
      simp [nextBlock, Function.block?] at found
    exact ⟨block, by simp [block?_newBlock, old, found], List.prefix_refl _⟩

theorem grows_reserve (draft : Draft) (name : String) (type : ValueType) :
    draft.function.Grows (draft.reserve name type).2.function where
  name := rfl
  parameters := rfl
  resultType := rfl
  resultCount := rfl
  entry := rfl
  locals := List.prefix_append _ _
  valueSupply := Nat.le_refl _
  closed := by
    intro id block found _
    have reservations :
        draft.function.reservationsSince (draft.reserve name type).2.function =
          [.reserve draft.nextLocal type] := by
      simp [Function.reservationsSince]
    rw [block?_reserve, reservations]
    by_cases isEntry : draft.function.entry = id
    · exact ⟨block.append (.reserve draft.nextLocal type), by simp [isEntry, found], rfl,
        by simp [isEntry, BasicBlock.append]⟩
    · exact ⟨block, by simp [isEntry, found], rfl, by simp [Ne.symm isEntry]⟩
  kept := by
    intro id block found
    rw [block?_reserve]
    split
    · exact ⟨block.append (.reserve draft.nextLocal type), by simp [found],
        List.prefix_append _ _⟩
    · exact ⟨block, found, List.prefix_refl _⟩

/-! ## Blocks that wait -/

/-- The entry block and the block under the cursor exist, and the blocks that have been made and not
been entered are empty, open and neither of these two. -/
structure Settled (draft : Draft) (waiting : List BlockId) : Prop where
  entry : (draft.function.block? draft.function.entry).isSome
  cursor : (draft.function.block? draft.cursor).isSome
  nodup : waiting.Nodup
  fresh : ∀ id ∈ waiting, id ≠ draft.cursor ∧ id ≠ draft.function.entry ∧
    ∃ label, draft.function.block? id = some (.empty id label)

theorem block?_nextBlock (draft : Draft) : draft.function.block? draft.nextBlock = none := by
  simp [nextBlock, Function.block?]

namespace Settled

variable {draft later : Draft} {waiting : List BlockId}

/-- Growth that leaves the cursor and all waiting blocks alone. -/
theorem of_grows (settled : draft.Settled waiting) (grows : draft.function.Grows later.function)
    (cursor : later.cursor = draft.cursor)
    (same : ∀ id, (draft.function.block? id).isSome → id ≠ draft.cursor →
      id ≠ draft.function.entry → later.function.block? id = draft.function.block? id) :
    later.Settled waiting where
  entry := by
    rw [grows.entry]
    exact grows.isSome_block? settled.entry
  cursor := by
    rw [cursor]
    exact grows.isSome_block? settled.cursor
  nodup := settled.nodup
  fresh := by
    intro id waits
    obtain ⟨notCursor, notEntry, label, found⟩ := settled.fresh id waits
    rw [cursor, grows.entry, same id (by simp [found]) notCursor notEntry]
    exact ⟨notCursor, notEntry, label, found⟩

theorem write (settled : draft.Settled waiting) (isOpen : draft.IsOpen)
    (instruction : Instruction) : (draft.write instruction).Settled waiting := by
  apply settled.of_grows (grows_write isOpen instruction) rfl
  intro id _ notCursor _
  rw [block?_write, if_neg notCursor.symm]

theorem close (settled : draft.Settled waiting) (isOpen : draft.IsOpen)
    (terminator : Terminator) : (draft.close terminator).Settled waiting := by
  apply settled.of_grows (grows_close isOpen terminator) rfl
  intro id _ notCursor _
  rw [block?_close, if_neg notCursor.symm]

theorem reserve (settled : draft.Settled waiting) (name : String) (type : ValueType) :
    (draft.reserve name type).2.Settled waiting := by
  apply settled.of_grows (grows_reserve draft name type) rfl
  intro id _ _ notEntry
  rw [block?_reserve, if_neg notEntry.symm]

/-- A new block is none of those that wait, nor the entry, nor the one under the cursor. -/
theorem newBlock (settled : draft.Settled waiting) (label : String) :
    (draft.newBlock label).2.Settled (draft.nextBlock :: waiting) := by
  have other {id : BlockId} (present : (draft.function.block? id).isSome) :
      id ≠ draft.nextBlock := by
    rintro rfl
    simp [block?_nextBlock] at present
  have still : (draft.newBlock label).2.Settled waiting := by
    apply settled.of_grows (grows_newBlock draft label) rfl
    intro id present _ _
    rw [block?_newBlock, if_neg (other present)]
  refine ⟨still.entry, still.cursor, List.nodup_cons.mpr ⟨?_, settled.nodup⟩, ?_⟩
  · intro waits
    obtain ⟨-, -, label, found⟩ := settled.fresh _ waits
    simp [block?_nextBlock] at found
  · intro id waits
    rcases List.mem_cons.mp waits with rfl | waits
    · exact ⟨(other settled.cursor).symm, (other settled.entry).symm, some label,
        by simp [block?_newBlock]⟩
    · exact still.fresh id waits

/-- A block that is entered no longer waits. -/
theorem moveTo {block : BlockId} {before after : List BlockId}
    (settled : draft.Settled (before ++ block :: after)) :
    (draft.moveTo block).Settled (before ++ after) := by
  obtain ⟨notLeft, nodup⟩ := List.nodup_cons.mp (List.perm_middle.nodup settled.nodup)
  obtain ⟨-, -, label, found⟩ := settled.fresh block (by simp)
  refine ⟨settled.entry, by simp [found], nodup, ?_⟩
  intro id waits
  have waited : id ∈ before ++ block :: after := by
    rcases List.mem_append.mp waits with early | late
    · exact List.mem_append_left _ early
    · exact List.mem_append_right _ (List.mem_cons_of_mem _ late)
  refine ⟨?_, (settled.fresh id waited).2⟩
  rintro rfl
  exact notLeft waits

end Settled

end Draft

/-! ## Numbers of slots -/

/-- What is found in a list is found in every longer one. -/
theorem getElem?_of_prefix {α : Type} {items more : List α} (grow : items <+: more) {index : Nat}
    {item : α} (found : items[index]? = some item) : more[index]? = some item := by
  obtain ⟨bound, rfl⟩ := List.getElem?_eq_some_iff.mp found
  exact List.prefix_iff_getElem?.mp grow index bound

/-- The slots of a function are numbered by position. -/
def Function.Numbered (function : Function) : Prop :=
  ∀ (index : Nat) (slot : LocalSlot), function.locals[index]? = some slot → slot.id = ⟨index⟩

namespace Function.Numbered

variable {function other : Function}

theorem of_locals_eq (numbered : function.Numbered) (same : other.locals = function.locals) :
    other.Numbered := by
  intro index slot found
  rw [same] at found
  exact numbered index slot found

theorem reserve {draft : Draft} (numbered : draft.function.Numbered) (name : String)
    (type : ValueType) : (draft.reserve name type).2.function.Numbered := by
  intro index slot found
  rw [Draft.locals_reserve] at found
  by_cases old : index < draft.function.locals.length
  · rw [List.getElem?_append_left old] at found
    exact numbered index slot found
  · obtain ⟨bound, -⟩ := List.getElem?_eq_some_iff.mp found
    obtain rfl : index = draft.function.locals.length := by
      rw [List.length_append, List.length_singleton] at bound
      omega
    rw [List.getElem?_concat_length] at found
    cases found
    rfl

end Function.Numbered

end YulLowering.Ir
