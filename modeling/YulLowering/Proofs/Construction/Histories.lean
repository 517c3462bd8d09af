import Mathlib.Data.List.Induction
import YulLowering.Proofs.Construction.Tables

/-!
# Functions after any number of operations

A history creates a function and carries out operations on it, which may put it under a cursor, take it from
there, move the cursor to where no block is, and so on. It is told twice, with a table of the blocks and
without. The two go the same way as long as there are numbers for all blocks, slots and values; so what is known
of functions without a table holds of those with one.
-/

namespace YulLowering.Ir

namespace Function.Indexed

@[simp] theorem length_blocks_modifyBlock (indexed : Indexed) (id : BlockId)
    (change : BasicBlock → BasicBlock) :
    (indexed.modifyBlock id change).function.blocks.length = indexed.function.blocks.length := by
  unfold modifyBlock
  split <;> simp

@[simp] theorem locals_modifyBlock (indexed : Indexed) (id : BlockId)
    (change : BasicBlock → BasicBlock) :
    (indexed.modifyBlock id change).function.locals = indexed.function.locals := by
  unfold modifyBlock
  split <;> rfl

/-! ## Creating a function -/

theorem create_concat (name : String) (front : List ValueType) (last : ValueType)
    (resultType : ValueType) (resultCount : Nat) :
    create name (front ++ [last]) resultType resultCount =
      (create name front resultType resultCount).pushParameter last := by
  simp [create]

theorem create_eq {parameterTypes : List ValueType} (fits : parameterTypes.length < UInt32.size)
    (name : String) (resultType : ValueType) (resultCount : Nat) :
    create name parameterTypes resultType resultCount =
      (Function.create name parameterTypes resultType resultCount).withTable ∅ := by
  induction parameterTypes using List.reverseRecOn with
  | nil => rfl
  | append_singleton front last ih =>
      rw [List.length_append, List.length_singleton] at fits
      rw [create_concat, ih (Nat.lt_of_succ_lt fits)]
      simp [pushParameter, freshValue, withTable, Function.create, word_of_lt fits, List.zipIdx_append]

/-- What is created has its parameters and nothing else, even where numbers do not fit. -/
theorem counts_create (name : String) (parameterTypes : List ValueType) (resultType : ValueType)
    (resultCount : Nat) :
    let created := (create name parameterTypes resultType resultCount).function
    created.parameters.length = parameterTypes.length ∧ created.blocks = [] ∧ created.locals = [] := by
  induction parameterTypes using List.reverseRecOn with
  | nil => exact ⟨rfl, rfl, rfl⟩
  | append_singleton front last ih =>
      rw [create_concat, pushParameter]
      simpa [freshValue] using ih

end Function.Indexed

namespace Construction

variable {form later : Form}

/-! ## Counting -/

/-- Writing adds no block and no slot. -/
theorem Writing.counts_performIndexed (writing : Writing) (draft : Draft.Indexed) :
    (writing.performIndexed draft).2.function.function.blocks.length =
        draft.function.function.blocks.length ∧
      (writing.performIndexed draft).2.function.function.locals = draft.function.function.locals := by
  cases writing <;> simp [performIndexed, Draft.Indexed.emit, Draft.Indexed.close,
    Draft.Indexed.define, Function.Indexed.freshValue, apply_ite]

/-- As many blocks and slots are added with a table as without, even where numbers do not fit. -/
theorem Operation.counts_performIndexed (operation : Operation form later) (stored : Stored form) :
    let before := stored.indexed.function
    let after := (operation.performIndexed stored).2.indexed.function
    after.blocks.length = before.blocks.length + (operation.added before.blocks.length).length ∧
      after.locals.length =
        before.locals.length + (operation.declared before.locals.length).length := by
  cases operation with
  | write writing =>
      obtain ⟨blocks, locals⟩ := writing.counts_performIndexed stored
      exact ⟨blocks, congrArg List.length locals⟩
  | _ =>
      simp [performIndexed, added, declared, Stored.indexed, Function.Indexed.freshValue,
        Function.Indexed.pushLocal, Function.Indexed.pushBlock, Draft.Indexed.reserve,
        Draft.Indexed.start]

theorem Operation.length_added_le (operation : Operation form later) (count : Nat) :
    (operation.added count).length ≤ 1 := by
  cases operation <;> simp [added]

theorem Operation.length_declared_le (operation : Operation form later) (count : Nat) :
    (operation.declared count).length ≤ 1 := by
  cases operation <;> simp [declared]

/-! ## Histories -/

/-- A function is created, and operations follow. -/
inductive History : Form → Type where
  | create (name : String) (parameterTypes : List ValueType) (resultType : ValueType)
      (resultCount : Nat) : History .function
  | step {form later : Form} (history : History form) (operation : Operation form later) :
      History later
deriving Repr

namespace History

/-- What is held in the end. -/
def held : {form : Form} → History form → Held form
  | _, create name parameterTypes resultType resultCount =>
    Function.create name parameterTypes resultType resultCount
  | _, step history operation => (operation.perform history.held).2

/-- The values that have been numbered, parameters first. -/
def values : {form : Form} → History form → List Value
  | _, create name parameterTypes resultType resultCount =>
    (Function.create name parameterTypes resultType resultCount).parameters
  | _, step history operation => history.values ++ (operation.perform history.held).1.toList

/-- What is held in the end, with its table. -/
def stored : {form : Form} → History form → Stored form
  | _, create name parameterTypes resultType resultCount =>
    Function.Indexed.create name parameterTypes resultType resultCount
  | _, step history operation => (operation.performIndexed history.stored).2

/-- The values that have been numbered where there is a table, parameters first. -/
def storedValues : {form : Form} → History form → List Value
  | _, create name parameterTypes resultType resultCount =>
    (Function.Indexed.create name parameterTypes resultType resultCount).function.parameters
  | _, step history operation =>
    history.storedValues ++ (operation.performIndexed history.stored).1.toList

/-- The number of parameters and operations. -/
def size : {form : Form} → History form → Nat
  | _, create _ parameterTypes _ _ => parameterTypes.length
  | _, step history _ => history.size + 1

/-- There are numbers of 32 bits for all blocks, slots and values. -/
structure Fits (history : History form) : Prop where
  blocks : history.stored.indexed.function.blocks.length < UInt32.size
  locals : history.stored.indexed.function.locals.length < UInt32.size
  values : history.storedValues.length < UInt32.size

theorem Fits.of_step {history : History form} {operation : Operation form later}
    (fits : (history.step operation).Fits) : history.Fits := by
  obtain ⟨blocks, locals, values⟩ := fits
  rw [storedValues, List.length_append] at values
  have counts := operation.counts_performIndexed history.stored
  constructor
  · exact Nat.lt_of_add_right_lt (counts.1 ▸ blocks)
  · exact Nat.lt_of_add_right_lt (counts.2 ▸ locals)
  · exact Nat.lt_of_add_right_lt values

/-- Numbers fit where there are not too many parameters and operations. -/
theorem fits_of_size_lt {history : History form} (few : history.size < UInt32.size) : history.Fits := by
  have counts : history.stored.indexed.function.blocks.length ≤ history.size ∧
      history.stored.indexed.function.locals.length ≤ history.size ∧
      history.storedValues.length ≤ history.size := by
    clear few
    induction history with
    | create name parameterTypes resultType resultCount =>
        obtain ⟨parameters, blocks, locals⟩ :=
          Function.Indexed.counts_create name parameterTypes resultType resultCount
        simp [stored, storedValues, size, Stored.indexed, parameters, blocks, locals]
    | step history operation ih =>
        have counts := operation.counts_performIndexed history.stored
        have blocks := operation.length_added_le history.stored.indexed.function.blocks.length
        have locals := operation.length_declared_le history.stored.indexed.function.locals.length
        have values : (operation.performIndexed history.stored).1.toList.length ≤ 1 :=
          Option.length_toList_le
        simp only [stored, storedValues, size, List.length_append]
        omega
  exact ⟨by omega, by omega, by omega⟩

theorem numbered (history : History form) : Numbered history.held.function history.values := by
  induction history with
  | create name parameterTypes resultType resultCount => exact .create _ _ _ _
  | step history operation ih => exact ih.step (operation.effect history.held)

/-- What is held with a table is what is held without, and the table finds its blocks. -/
def InStep (history : History form) : Prop :=
  ∃ positions, Tracks positions history.held.function ∧
    history.stored = history.held.withTable positions ∧ history.storedValues = history.values

/-- From then on an operation does the same with the table as without, as long as numbers fit. -/
theorem InStep.perform {history : History form} (inStep : history.InStep)
    {operation : Operation form later} (fits : (history.step operation).Fits) :
    ∃ table, Tracks table (operation.perform history.held).2.function ∧
      operation.performIndexed history.stored =
        (operation.perform history.held).map id (·.withTable table) := by
  obtain ⟨positions, tracks, stored, values⟩ := inStep
  obtain ⟨blocks, locals, -⟩ := fits.of_step
  have number := fits.values
  rw [storedValues, List.length_append, values, history.numbered.length_values] at number
  rw [stored] at blocks locals number ⊢
  rw [indexed_withTable] at blocks locals
  exact operation.performIndexed_eq tracks blocks locals number

theorem inStep (history : History form) (fits : history.Fits) : history.InStep := by
  induction history with
  | create name parameterTypes resultType resultCount =>
      have few : parameterTypes.length < UInt32.size := by
        have counts := Function.Indexed.counts_create name parameterTypes resultType resultCount
        exact counts.1 ▸ fits.values
      have created := Function.Indexed.create_eq few name resultType resultCount
      exact ⟨∅, .empty _ rfl, created, congrArg (fun indexed => indexed.function.parameters) created⟩
  | step history operation ih =>
      have before := ih fits.of_step
      obtain ⟨table, tracks, performed⟩ := before.perform fits
      obtain ⟨-, -, -, values⟩ := before
      refine ⟨table, tracks, ?_, ?_⟩
      · rw [stored, performed]
        rfl
      · rw [storedValues, values, performed]
        rfl

theorem content_stored (history : History form) (fits : history.Fits) :
    history.stored.content = history.held := by
  obtain ⟨positions, -, stored, -⟩ := history.inStep fits
  rw [stored, content_withTable]

/-- The table finds what is found by number. -/
theorem block?_stored (history : History form) (fits : history.Fits) (id : BlockId) :
    history.stored.indexed.block? id = history.stored.content.function.block? id := by
  rw [history.content_stored fits]
  obtain ⟨positions, tracks, stored, -⟩ := history.inStep fits
  rw [stored, indexed_withTable, tracks.block?_eq]

theorem tracks_stored (history : History form) (fits : history.Fits) :
    Tracks history.stored.indexed.positions history.stored.content.function := by
  rw [history.content_stored fits]
  obtain ⟨positions, tracks, stored, -⟩ := history.inStep fits
  rw [stored, indexed_withTable]
  exact tracks

theorem numbered_stored (history : History form) (fits : history.Fits) :
    Numbered history.stored.content.function history.storedValues := by
  obtain ⟨-, -, -, values⟩ := history.inStep fits
  rw [history.content_stored fits, values]
  exact history.numbered

/-- What an operation does without a table, it does with one. -/
theorem effect_stored (history : History form) (operation : Operation form later)
    (fits : (history.step operation).Fits) :
    operation.Effect history.stored.content (operation.performIndexed history.stored).1
      (history.step operation).stored.content := by
  obtain ⟨table, -, performed⟩ := (history.inStep fits.of_step).perform fits
  rw [stored, performed, history.content_stored fits.of_step, Prod.map_snd, content_withTable]
  exact operation.effect history.held

/-- Where an instruction or a terminator is written to no block, only the supply of values changes, and all
blocks are found as before. -/
theorem idle_stored (history : History form) {operation : Operation form later}
    (fits : (history.step operation).Fits) (isWriting : operation.writes = true) {target : BlockId}
    (isTarget : operation.target? history.stored.content = some target)
    (absent : history.stored.indexed.block? target = none) :
    let before := history.stored.content
    let after := (history.step operation).stored.content
    let value? := (operation.performIndexed history.stored).1
    after.function = { before.function with
        valueSupply := before.function.valueSupply + value?.toList.length } ∧
      after.cursor? = before.cursor? ∧
      ∀ id, (history.step operation).stored.indexed.block? id = history.stored.indexed.block? id := by
  intro before after value?
  have effect := history.effect_stored operation fits
  rw [history.block?_stored fits.of_step] at absent
  obtain ⟨idle, cursor⟩ := effect.idle isWriting isTarget absent
  refine ⟨?_, cursor, ?_⟩
  · rw [← effect.supply]
    exact idle
  · intro id
    rw [block?_stored _ fits, history.block?_stored fits.of_step, idle]
    rfl

/-- Whatever is done to a function that has a table, by itself or under a cursor, the function is the one that
has come about without a table. Its blocks and slots are numbered by their positions, the table finds the block
with each number and no other, and no two values have ever got one number. Each operation changes at most the
block that it is meant for, at its end, and where an instruction or a terminator is written to no block, nothing
changes but the supply of values. -/
theorem keeps_representation (history : History form) (fits : history.Fits) :
    let before := history.stored.content
    let function := before.function
    (before = history.held ∧ history.storedValues = history.values) ∧
      (∀ (index : Nat) (bound : index < function.blocks.length),
        function.blocks[index].id = ⟨index⟩) ∧
      Tracks history.stored.indexed.positions function ∧
      (∀ id : BlockId, history.stored.indexed.block? id =
        if bound : id.index < function.blocks.length then some function.blocks[id.index] else none) ∧
      (∀ (index : Nat) (bound : index < function.locals.length),
        function.locals[index].id = ⟨index⟩) ∧
      (function.parameters <+: history.storedValues ∧ (history.storedValues.map Value.id).Nodup) ∧
      ∀ {later : Form} (operation : Operation form later), (history.step operation).Fits →
        let value? := (operation.performIndexed history.stored).1
        let after := (history.step operation).stored.content
        operation.Effect before value? after ∧
          ∀ target, operation.writes = true → operation.target? before = some target →
            history.stored.indexed.block? target = none →
              after.function =
                  { function with valueSupply := function.valueSupply + value?.toList.length } ∧
                after.cursor? = before.cursor? ∧
                ∀ id, (history.step operation).stored.indexed.block? id =
                  history.stored.indexed.block? id := by
  intro before function
  have numbered : Numbered function history.storedValues := history.numbered_stored fits
  refine ⟨⟨history.content_stored fits, ?values⟩, fun _ => numbered.block_id_eq,
    history.tracks_stored fits, ?found, fun _ => numbered.local_id_eq,
    ⟨numbered.parameters, numbered.nodup⟩, ?step⟩
  case values =>
    obtain ⟨-, -, -, values⟩ := history.inStep fits
    exact values
  case found =>
    intro id
    rw [history.block?_stored fits, Function.block?]
    split
    next bound => exact List.getElem?_eq_getElem bound
    next beyond => exact List.getElem?_eq_none (Nat.le_of_not_lt beyond)
  case step =>
    intro later operation fitsLater value? after
    refine ⟨history.effect_stored operation fitsLater, ?_⟩
    intro target isWriting isTarget absent
    exact history.idle_stored fitsLater isWriting isTarget absent

/-- A function that has a block before it gets a cursor, which is moved away from all blocks in the end. -/
def straying : History .draft :=
  (((((History.create "f" [.int 8] .void 0).step (.pushBlock none)).step .start).step
    (.reserve "x" (.int 8))).step (.write (.const (.int 8) 5))).step (.moveTo ⟨7⟩)

theorem keeps_representation_straying :
    let writing := Operation.write (.const (.int 8) 6)
    straying.Fits ∧ (straying.step writing).Fits ∧
      straying.stored.indexed.block? ⟨1⟩ = some ⟨⟨1⟩, some "entry",
        [.reserve ⟨0⟩ (.int 8), .const ⟨⟨1⟩, .int 8⟩ 5], .unreachable⟩ ∧
      straying.stored.indexed.block? ⟨7⟩ = none ∧
      straying.storedValues = [⟨⟨0⟩, .int 8⟩, ⟨⟨1⟩, .int 8⟩] ∧
      (straying.step writing).stored.content.function =
        { straying.held.function with valueSupply := 3 } := by
  intro writing
  have fits : straying.Fits := fits_of_size_lt (by decide)
  have fitsLater : (straying.step writing).Fits := fits_of_size_lt (by decide)
  obtain ⟨⟨content, values⟩, -, -, found, -, -, step⟩ := straying.keeps_representation fits
  obtain ⟨-, idle⟩ := step writing fitsLater
  rw [content] at found
  have absent : straying.stored.indexed.block? ⟨7⟩ = none := found ⟨7⟩
  refine ⟨fits, fitsLater, found ⟨1⟩, absent, values, ?_⟩
  rw [(idle ⟨7⟩ rfl ?_ absent).1, content]
  · rfl
  · rw [content]
    rfl

end History

end Construction

end YulLowering.Ir
