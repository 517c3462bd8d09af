import YulLowering.Proofs.Growth
import YulLowering.Proofs.Meaning.Machine

/-!
# Positions

While a function is lowered, the machine can be thought of as standing where the cursor stands: what
it has still to run of the block is what has not been written yet. An edit of the draft tells the
next instruction, or the terminator, and the machine follows.
-/

namespace YulLowering.Ir

/-! ## What is still to be run -/

/-- What is left of the block under the cursor, and how the block ends, once the function has been
finished. -/
def Draft.Ahead (draft : Draft) (finished : Function) (code : List Instruction)
    (exit : Terminator) : Prop :=
  ∃ block later, draft.function.block? draft.cursor = some block ∧ block.isClosed = false ∧
    finished.block? draft.cursor = some later ∧
    later.instructions = block.instructions ++ code ∧ later.terminator = exit

namespace Draft.Ahead

variable {draft : Draft} {finished : Function} {code : List Instruction} {exit : Terminator}

theorem isOpen (ahead : draft.Ahead finished code exit) : draft.IsOpen := by
  obtain ⟨block, -, found, unset, -⟩ := ahead
  exact ⟨block, found, unset⟩

/-- An instruction that is written was the next to be run. -/
theorem write (ahead : draft.Ahead finished code exit) {instruction : Instruction}
    (grows : (draft.write instruction).function.Grows finished) :
    ∃ rest, code = instruction :: rest ∧ (draft.write instruction).Ahead finished rest exit := by
  obtain ⟨block, later, found, unset, foundLater, instructions, isExit⟩ := ahead
  have written : (draft.write instruction).function.block? draft.cursor =
      some (block.append instruction) := by
    simp [block?_write, found]
  obtain ⟨other, foundOther, kept⟩ := grows.kept written
  obtain rfl : other = later := Option.some.inj (foundOther.symm.trans foundLater)
  obtain ⟨rest, whole⟩ := kept
  refine ⟨rest, ?_, block.append instruction, other, written, unset, foundOther, whole.symm, isExit⟩
  refine List.append_cancel_left (?_ : block.instructions ++ code = block.instructions ++ _)
  rw [← instructions, ← whole]
  simp [BasicBlock.append]

theorem newBlock (ahead : draft.Ahead finished code exit) (label : String) :
    (draft.newBlock label).2.Ahead finished code exit := by
  obtain ⟨block, later, found, unset, rest⟩ := ahead
  have old : draft.cursor ≠ draft.nextBlock := by
    intro same
    rw [same, nextBlock, Function.block?, List.getElem?_eq_none (Nat.le_refl _)] at found
    cases found
  exact ⟨block, later, by rw [cursor_newBlock, block?_newBlock, if_neg old, found], unset, rest⟩

/-- A reservation was the next to be run if the cursor is in the entry block, and had been run before
if it is not. -/
theorem reserve (ahead : draft.Ahead finished code exit) {name : String} {type : ValueType}
    (grows : (draft.reserve name type).2.function.Grows finished) :
    ∃ rest, code = (if draft.cursor = draft.function.entry then
        [.reserve draft.nextLocal type] else []) ++ rest ∧
      (draft.reserve name type).2.Ahead finished rest exit := by
  obtain ⟨block, later, found, unset, foundLater, instructions, isExit⟩ := ahead
  by_cases inEntry : draft.cursor = draft.function.entry
  · have reserved : (draft.reserve name type).2.function.block? draft.cursor =
        some (block.append (.reserve draft.nextLocal type)) := by
      rw [block?_reserve, if_pos inEntry.symm, found]
      rfl
    obtain ⟨other, foundOther, kept⟩ := grows.kept reserved
    obtain rfl : other = later := Option.some.inj (foundOther.symm.trans foundLater)
    obtain ⟨rest, whole⟩ := kept
    refine ⟨rest, ?_, _, other, reserved, unset, foundOther, whole.symm, isExit⟩
    refine List.append_cancel_left (?_ : block.instructions ++ code = block.instructions ++ _)
    rw [← instructions, ← whole, if_pos inEntry]
    simp [BasicBlock.append]
  · have kept : (draft.reserve name type).2.function.block? draft.cursor = some block := by
      rw [block?_reserve, if_neg (Ne.symm inEntry), found]
    refine ⟨code, by rw [if_neg inEntry]; rfl, block, later, kept, unset, foundLater, instructions,
      isExit⟩

/-- Where a block is closed, nothing is left but reservations that are made later. -/
theorem close (ahead : draft.Ahead finished code exit) {terminator : Terminator}
    (isSet : terminator ≠ .unreachable) (grows : (draft.close terminator).function.Grows finished) :
    exit = terminator ∧
      code = if draft.cursor = draft.function.entry then draft.function.reservationsSince finished
        else [] := by
  obtain ⟨block, later, found, unset, foundLater, instructions, isExit⟩ := ahead
  have closed : (draft.close terminator).function.block? draft.cursor =
      some (block.close terminator) := by
    rw [block?_close, if_pos rfl, found]
    rfl
  obtain ⟨other, foundOther, sameExit, whole⟩ := grows.closed closed (by simp [isSet])
  obtain rfl : other = later := Option.some.inj (foundOther.symm.trans foundLater)
  exact ⟨isExit.symm.trans sameExit,
    List.append_cancel_left (instructions.symm.trans whole)⟩

/-- The whole of a block is ahead where the cursor has gone to a new one. -/
theorem of_fresh {label : Option String}
    (fresh : draft.function.block? draft.cursor = some (.empty draft.cursor label))
    {block : BasicBlock} (found : finished.block? draft.cursor = some block) :
    draft.Ahead finished block.instructions block.terminator :=
  ⟨_, block, fresh, rfl, found, rfl, rfl⟩

end Draft.Ahead

/-! ## Where the machine stands -/

namespace Frame

/-- The machine stands where the cursor stands. In the entry block those slots have been reserved
that have been declared so far, and in the other blocks all slots. -/
structure At (frame : Frame) (finished : Function) (draft : Draft) : Prop where
  function : frame.function = finished
  ahead : draft.Ahead finished frame.code frame.terminator
  reserved : ∀ slot : LocalId,
    slot.index < (if draft.cursor = draft.function.entry then draft.function.locals.length
      else finished.locals.length) → (frame.locals slot).isSome

/-- The machine stands at the start of a block, with all slots reserved. -/
structure AtBlock (frame : Frame) (finished : Function) (block : BlockId) : Prop where
  function : frame.function = finished
  starts : ∃ later, finished.block? block = some later ∧ frame.code = later.instructions ∧
    frame.terminator = later.terminator
  reserved : ∀ slot : LocalId, slot.index < finished.locals.length → (frame.locals slot).isSome

/-- The machine stands at the end of a block, with all slots reserved. -/
structure AtEnd (frame : Frame) (finished : Function) (exit : Terminator) : Prop where
  function : frame.function = finished
  code : frame.code = []
  terminator : frame.terminator = exit
  reserved : ∀ slot : LocalId, slot.index < finished.locals.length → (frame.locals slot).isSome

/-- The first slots hold in one frame what they hold in another. -/
def Agrees (frame later : Frame) (bound : Nat) : Prop :=
  ∀ slot : LocalId, slot.index < bound → later.locals slot = frame.locals slot

@[simp] theorem values_define (frame : Frame) (dest : Value) (content : Nat) (id : ValueId) :
    (frame.define dest content).values id =
      if id = dest.id then some content else frame.values id := rfl

@[simp] theorem locals_define (frame : Frame) (dest : Value) (content : Nat) :
    (frame.define dest content).locals = frame.locals := rfl

@[simp] theorem values_set (frame : Frame) (slot : LocalId) (content : Option Nat) :
    (frame.set slot content).values = frame.values := rfl

@[simp] theorem locals_set (frame : Frame) (slot : LocalId) (content : Option Nat) (id : LocalId) :
    (frame.set slot content).locals id = if id = slot then some content else frame.locals id := rfl

@[simp] theorem values_advance (frame : Frame) : frame.advance.values = frame.values := rfl

@[simp] theorem locals_advance (frame : Frame) : frame.advance.locals = frame.locals := rfl

variable {frame : Frame} {finished : Function} {draft : Draft}

/-- Store to several slots, one after the other. -/
def setAll (frame : Frame) : List (LocalId × Nat) → Frame
  | [] => frame
  | (slot, content) :: rest => (frame.set slot (some content)).setAll rest

/-- A slot that nothing is stored to keeps what it holds. -/
theorem locals_setAll_of_not_mem (frame : Frame) {stores : List (LocalId × Nat)} {slot : LocalId}
    (other : slot ∉ stores.map Prod.fst) : (frame.setAll stores).locals slot = frame.locals slot := by
  induction stores generalizing frame with
  | nil => rfl
  | cons store rest ih =>
      obtain ⟨first, content⟩ := store
      rw [List.map_cons, List.mem_cons, not_or] at other
      rw [setAll, ih _ other.2, locals_set, if_neg other.1]

/-- Slots that are different hold what has been stored to them. -/
theorem locals_setAll_of_mem (frame : Frame) {stores : List (LocalId × Nat)} {slot : LocalId}
    {content : Nat} (apart : (stores.map Prod.fst).Nodup) (member : (slot, content) ∈ stores) :
    (frame.setAll stores).locals slot = some (some content) := by
  induction stores generalizing frame with
  | nil => cases member
  | cons store rest ih =>
      obtain ⟨absent, apart⟩ := List.nodup_cons.mp apart
      rcases List.mem_cons.mp member with rfl | member
      · rw [setAll, locals_setAll_of_not_mem _ absent, locals_set, if_pos rfl]
      · rw [setAll, ih _ apart member]

/-- Where frames have the same slots, they still have after the same stores. -/
theorem locals_setAll_eq {frame other : Frame} (same : frame.locals = other.locals)
    (stores : List (LocalId × Nat)) :
    (frame.setAll stores).locals = (other.setAll stores).locals := by
  induction stores generalizing frame other with
  | nil => exact same
  | cons store rest ih =>
      apply ih
      funext id
      rw [locals_set, locals_set, same]

namespace Agrees

theorem refl (frame : Frame) (bound : Nat) : frame.Agrees frame bound :=
  fun _ _ => rfl

theorem trans {middle later : Frame} {bound more : Nat} (first : frame.Agrees middle bound)
    (second : middle.Agrees later more) (le : bound ≤ more) : frame.Agrees later bound :=
  fun slot below => (second slot (Nat.lt_of_lt_of_le below le)).trans (first slot below)

end Agrees

namespace At

/-- The machine stands before the instruction that is written. -/
theorem advance (stands : frame.At finished draft) {instruction : Instruction}
    (grows : (draft.write instruction).function.Grows finished) :
    frame.code = instruction :: frame.advance.code ∧
      frame.advance.At finished (draft.write instruction) := by
  obtain ⟨rest, isCode, ahead⟩ := stands.ahead.write grows
  have isRest : frame.advance.code = rest := by
    rw [Frame.advance, isCode]
    rfl
  rw [isRest]
  exact ⟨isCode, stands.function, isRest ▸ ahead, stands.reserved⟩

theorem define (stands : frame.At finished draft) (dest : Value) (content : Nat) :
    (frame.define dest content).At finished draft :=
  ⟨stands.function, stands.ahead, stands.reserved⟩

theorem set (stands : frame.At finished draft) (slot : LocalId) (content : Option Nat) :
    (frame.set slot content).At finished draft := by
  refine ⟨stands.function, stands.ahead, ?_⟩
  intro other below
  rw [locals_set]
  split
  · rfl
  · exact stands.reserved other below

theorem newBlock (stands : frame.At finished draft) (label : String) :
    frame.At finished (draft.newBlock label).2 :=
  ⟨stands.function, stands.ahead.newBlock label, stands.reserved⟩

/-- What has been declared has been reserved. -/
theorem isSome_locals (stands : frame.At finished draft) (grows : draft.function.Grows finished)
    {slot : LocalId} (declared : slot.index < draft.function.locals.length) :
    (frame.locals slot).isSome := by
  apply stands.reserved
  split
  · exact declared
  · exact Nat.lt_of_lt_of_le declared grows.locals.length_le

/-- At the start of a block that the cursor has gone to. -/
theorem of_fresh {label : Option String}
    (fresh : draft.function.block? draft.cursor = some (.empty draft.cursor label))
    (outside : draft.cursor ≠ draft.function.entry)
    (starts : frame.AtBlock finished draft.cursor) : frame.At finished draft := by
  obtain ⟨block, found, code, terminator⟩ := starts.starts
  constructor
  case function => exact starts.function
  case ahead =>
    rw [code, terminator]
    exact .of_fresh fresh found
  case reserved =>
    rw [if_neg outside]
    exact starts.reserved

end At

end Frame

/-! ## Following the cursor -/

namespace Machine

variable {World : Type} (machine : Machine World) {frame : Frame} {finished : Function}
  {draft : Draft} (callers : List Caller) (globals : GlobalId → Nat) (world : World)

/-- The machine takes the next instruction. -/
theorem step_of_code {instruction : Instruction} {rest : List Instruction}
    (isCode : frame.code = instruction :: rest) :
    machine.step (.running frame callers globals world) =
      machine.execute frame.advance callers globals world instruction := by
  rw [step]
  simp [isCode]

/-- The machine takes an instruction that is written and has a value to define. -/
theorem step_define {instruction : Instruction} {dest : Value} {content : Nat} {later : World}
    (stands : frame.At finished draft)
    (grows : (draft.write instruction).function.Grows finished)
    (executes : machine.execute frame.advance callers globals world instruction =
      some (.running (frame.advance.define dest content) callers globals later)) :
    machine.Steps (.running frame callers globals world)
        (.running (frame.advance.define dest content) callers globals later) ∧
      (frame.advance.define dest content).At finished (draft.write instruction) := by
  obtain ⟨isCode, stands⟩ := stands.advance grows
  exact ⟨.single ((machine.step_of_code callers globals world isCode).trans executes),
    stands.define dest content⟩

/-- The machine reads a slot that has a value. -/
theorem step_load {slot : LocalId} {type : ValueType} {content : Nat} (stands : frame.At finished draft)
    (grows : (draft.write (.load (draft.next type) (.ofLocal slot))).function.Grows finished)
    (held : frame.locals slot = some (some content)) :
    machine.Steps (.running frame callers globals world)
        (.running (frame.advance.define (draft.next type) content) callers globals world) ∧
      (frame.advance.define (draft.next type) content).At finished
        (draft.write (.load (draft.next type) (.ofLocal slot))) := by
  apply machine.step_define callers globals world stands grows
  rw [execute, Frame.locals_advance, held]

/-- The machine takes a store that is written to a slot that has been reserved. -/
theorem step_store {slot : LocalId} {value : Value} {content : Nat}
    (stands : frame.At finished draft)
    (grows : (draft.write (.store (.ofLocal slot) value)).function.Grows finished)
    (reserved : (frame.locals slot).isSome) (held : frame.values value.id = some content) :
    machine.Steps (.running frame callers globals world)
        (.running (frame.advance.set slot (some content)) callers globals world) ∧
      (frame.advance.set slot (some content)).At finished
        (draft.write (.store (.ofLocal slot) value)) := by
  obtain ⟨isCode, stands⟩ := stands.advance grows
  obtain ⟨old, isOld⟩ := Option.isSome_iff_exists.mp reserved
  refine ⟨.single ((machine.step_of_code callers globals world isCode).trans ?_), stands.set slot _⟩
  simp [execute, isOld, held]

/-- A slot that is declared has been reserved when the machine goes on. -/
theorem steps_reserve {name : String} {type : ValueType} (stands : frame.At finished draft)
    (grows : (draft.reserve name type).2.function.Grows finished) :
    ∃ later, machine.Steps (.running frame callers globals world)
        (.running later callers globals world) ∧
      later.At finished (draft.reserve name type).2 ∧ later.values = frame.values ∧
      frame.Agrees later draft.function.locals.length := by
  obtain ⟨rest, isCode, ahead⟩ := stands.ahead.reserve grows
  by_cases inEntry : draft.cursor = draft.function.entry
  · rw [if_pos inEntry, List.singleton_append] at isCode
    let later := frame.advance.set draft.nextLocal none
    have taken : machine.step (.running frame callers globals world) =
        some (.running later callers globals world) := machine.step_of_code callers globals world isCode
    have isRest : later.code = rest := by
      show frame.code.tail = rest
      rw [isCode]
      rfl
    refine ⟨later, .single taken, ⟨stands.function, isRest ▸ ahead, ?_⟩, rfl, ?_⟩
    · intro slot below
      rw [Draft.cursor_reserve, Draft.entry_reserve, if_pos inEntry, Draft.locals_reserve, List.length_append,
        List.length_singleton] at below
      rw [Frame.locals_set]
      split
      · rfl
      · next other =>
        apply stands.reserved
        rw [if_pos inEntry]
        have differs : slot.index ≠ draft.function.locals.length := by
          intro same
          exact other (congrArg LocalId.mk same)
        omega
    · intro slot below
      rw [Frame.locals_set, if_neg]
      · rfl
      · rintro rfl
        exact Nat.lt_irrefl _ below
  · rw [if_neg inEntry, List.nil_append] at isCode
    refine ⟨frame, .refl, ⟨stands.function, isCode ▸ ahead, ?_⟩, rfl, .refl _ _⟩
    have reserved := stands.reserved
    rw [if_neg inEntry] at reserved
    rwa [Draft.cursor_reserve, Draft.entry_reserve, if_neg inEntry]

/-- Reservations make slots and change nothing else. -/
theorem steps_reservations (slots : List LocalSlot)
    (isCode : frame.code = slots.map fun slot => .reserve slot.id slot.type) :
    ∃ later, machine.Steps (.running frame callers globals world)
        (.running later callers globals world) ∧
      later.function = frame.function ∧ later.code = [] ∧ later.terminator = frame.terminator ∧
      later.values = frame.values ∧
      (∀ id, (∀ slot ∈ slots, slot.id ≠ id) → later.locals id = frame.locals id) ∧
      ∀ id, (frame.locals id).isSome ∨ (∃ slot ∈ slots, slot.id = id) →
        (later.locals id).isSome := by
  induction slots generalizing frame with
  | nil =>
      refine ⟨frame, .refl, rfl, isCode, rfl, rfl, fun _ _ => rfl, ?_⟩
      rintro id (there | ⟨slot, member, -⟩)
      · exact there
      · cases member
  | cons slot rest ih =>
      let next := frame.advance.set slot.id none
      have taken : machine.step (.running frame callers globals world) =
          some (.running next callers globals world) := machine.step_of_code callers globals world isCode
      have nextCode : next.code = rest.map fun slot => .reserve slot.id slot.type := by
        show frame.code.tail = _
        rw [isCode]
        rfl
      obtain ⟨later, steps, function, code, terminator, values, kept, there⟩ := ih nextCode
      refine ⟨later, .head taken steps, function, code, terminator, values, ?_, ?_⟩
      · intro id others
        rw [kept id fun other member => others other (List.mem_cons_of_mem _ member)]
        exact if_neg (Ne.symm (others slot List.mem_cons_self))
      · intro id known
        apply there
        by_cases isSlot : id = slot.id
        · left
          simp [next, isSlot]
        · rcases known with before | ⟨other, member, isOther⟩
          · left
            simpa [next, isSlot] using before
          · rcases List.mem_cons.mp member with rfl | member
            · exact absurd isOther.symm isSlot
            · exact .inr ⟨other, member, isOther⟩

/-- Where a block is closed, the machine comes to its end. -/
theorem steps_close {terminator : Terminator} (stands : frame.At finished draft)
    (isSet : terminator ≠ .unreachable) (grows : (draft.close terminator).function.Grows finished)
    (numbered : finished.Numbered) :
    ∃ later, machine.Steps (.running frame callers globals world)
        (.running later callers globals world) ∧
      later.AtEnd finished terminator ∧ later.values = frame.values ∧
      frame.Agrees later draft.function.locals.length := by
  obtain ⟨isExit, isCode⟩ := stands.ahead.close isSet grows
  by_cases inEntry : draft.cursor = draft.function.entry
  · rw [if_pos inEntry] at isCode
    obtain ⟨later, steps, function, code, exit, values, kept, there⟩ :=
      machine.steps_reservations callers globals world _ isCode
    -- What is reserved at the end are the slots from the number on that there are now.
    have reserves (id : LocalId) : (∃ slot ∈ finished.locals.drop draft.function.locals.length,
        slot.id = id) ↔ draft.function.locals.length ≤ id.index ∧
          id.index < finished.locals.length := by
      constructor
      · rintro ⟨slot, member, rfl⟩
        obtain ⟨index, found⟩ := List.mem_iff_getElem?.mp member
        rw [List.getElem?_drop] at found
        obtain ⟨bound, -⟩ := List.getElem?_eq_some_iff.mp found
        rw [numbered _ _ found]
        exact ⟨Nat.le_add_right _ _, bound⟩
      · rintro ⟨old, bound⟩
        have found : (finished.locals.drop draft.function.locals.length)[
            id.index - draft.function.locals.length]? = some finished.locals[id.index] := by
          rw [List.getElem?_drop, Nat.add_sub_cancel' old, List.getElem?_eq_getElem bound]
        refine ⟨finished.locals[id.index], List.mem_of_getElem? found, ?_⟩
        exact numbered _ _ (List.getElem?_eq_getElem bound)
    refine ⟨later, steps, ⟨function.trans stands.function, code, exit.trans isExit, ?_⟩, values, ?_⟩
    · intro slot below
      apply there
      by_cases old : slot.index < draft.function.locals.length
      · exact .inl (stands.reserved slot (by rwa [if_pos inEntry]))
      · exact .inr ((reserves slot).mpr ⟨Nat.le_of_not_lt old, below⟩)
    · intro slot below
      apply kept
      intro other member isSlot
      have bounds := (reserves slot).mp ⟨other, member, isSlot⟩
      omega
  · rw [if_neg inEntry] at isCode
    refine ⟨frame, .refl, ⟨stands.function, isCode, isExit, ?_⟩, rfl, .refl _ _⟩
    have reserved := stands.reserved
    rwa [if_neg inEntry] at reserved

/-- The machine takes the terminator at the end of a block. -/
theorem step_of_end {exit : Terminator} (ends : frame.AtEnd finished exit) :
    machine.step (.running frame callers globals world) =
      leave frame callers globals world exit := by
  rw [step]
  simp [ends.code, ends.terminator]

/-- From the end of a block the machine can go to any block. -/
theorem goTo_of_end {exit : Terminator} (ends : frame.AtEnd finished exit) {target : BlockId}
    (present : (finished.block? target).isSome) :
    ∃ later, goTo frame callers globals world target =
        some (.running later callers globals world) ∧
      later.AtBlock finished target ∧ later.locals = frame.locals := by
  obtain ⟨block, found⟩ := Option.isSome_iff_exists.mp present
  refine ⟨{ frame with code := block.instructions, terminator := block.terminator }, ?_,
    ⟨ends.function, ⟨block, found, rfl, rfl⟩, ends.reserved⟩, rfl⟩
  rw [goTo, Frame.enter?, ends.function, found]
  rfl

/-- Where a block is closed, the last step of the machine goes to the block that the terminator leads
to. -/
theorem steps_goTo {terminator : Terminator} {target : BlockId} (stands : frame.At finished draft)
    (isSet : terminator ≠ .unreachable) (grows : (draft.close terminator).function.Grows finished)
    (numbered : finished.Numbered) (present : (finished.block? target).isSome)
    (leads : ∀ later : Frame, later.values = frame.values →
      leave later callers globals world terminator = goTo later callers globals world target) :
    ∃ between later, machine.Steps (.running frame callers globals world)
        (.running between callers globals world) ∧
      machine.step (.running between callers globals world) =
        some (.running later callers globals world) ∧
      later.AtBlock finished target ∧ frame.Agrees later draft.function.locals.length := by
  obtain ⟨between, steps, ends, values, agrees⟩ :=
    machine.steps_close callers globals world stands isSet grows numbered
  obtain ⟨later, goes, starts, locals⟩ := goTo_of_end callers globals world ends present
  refine ⟨between, later, steps, ?_, starts, ?_⟩
  · rw [machine.step_of_end callers globals world ends, leads between values, goes]
  · intro slot below
    rw [locals, agrees slot below]

end Machine

end YulLowering.Ir
