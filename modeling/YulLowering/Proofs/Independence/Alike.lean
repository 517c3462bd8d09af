import YulLowering.Proofs.Agreement
import YulLowering.Proofs.Programs

/-!
# Functions that are alike

Two functions are alike if they differ in nothing but the numbers of the functions that they call. Every
edit that lowering makes keeps two drafts alike, so two states whose drafts are alike, whose scopes and
loops are the same and whose spill slots are in order stay so.
-/

namespace YulLowering

namespace Ir

variable {related : FunctionId → FunctionId → Prop}

/-- Two instructions that are the same, or calls of functions that correspond. -/
inductive Instruction.Alike (related : FunctionId → FunctionId → Prop) :
    Instruction → Instruction → Prop where
  | same {instruction : Instruction} (plain : instruction.function? = none) :
      Alike related instruction instruction
  | call {id other : FunctionId} (isRelated : related id other) (dest : Option Value)
      (arguments : List Value) :
      Alike related (.call dest (.function id) arguments) (.call dest (.function other) arguments)

theorem Instruction.Alike.dest?_eq {instruction other : Instruction}
    (alike : instruction.Alike related other) : instruction.dest? = other.dest? := by
  cases alike <;> rfl

/-- Two blocks that differ in nothing but the functions that they call. -/
structure BasicBlock.Alike (related : FunctionId → FunctionId → Prop) (block other : BasicBlock) :
    Prop where
  id : block.id = other.id
  label : block.label = other.label
  instructions : List.Forall₂ (Instruction.Alike related) block.instructions other.instructions
  terminator : block.terminator = other.terminator

/-- Two functions that differ in nothing but the functions that they call. -/
structure Function.Alike (related : FunctionId → FunctionId → Prop) (function other : Function) :
    Prop where
  name : function.name = other.name
  parameters : function.parameters = other.parameters
  resultType : function.resultType = other.resultType
  resultCount : function.resultCount = other.resultCount
  locals : function.locals = other.locals
  blocks : List.Forall₂ (BasicBlock.Alike related) function.blocks other.blocks
  entry : function.entry = other.entry
  valueSupply : function.valueSupply = other.valueSupply

/-- Lists that correspond still do after corresponding changes at one position. -/
theorem forall₂_modify {α β : Type} {related : α → β → Prop} {items : List α} {others : List β}
    (all : List.Forall₂ related items others) (index : Nat) {change : α → α} {otherChange : β → β}
    (changes : ∀ {item other}, related item other → related (change item) (otherChange other)) :
    List.Forall₂ related (items.modify index change) (others.modify index otherChange) := by
  induction all generalizing index with
  | nil => simp
  | cons first rest ih =>
      cases index with
      | zero => exact .cons (changes first) rest
      | succ index => exact .cons first (ih index)

namespace BasicBlock.Alike

variable {block other : BasicBlock}

theorem empty (id : BlockId) (label : Option String) :
    (BasicBlock.empty id label).Alike related (.empty id label) :=
  ⟨rfl, rfl, .nil, rfl⟩

theorem append (alike : block.Alike related other) {instruction otherInstruction : Instruction}
    (instructions : instruction.Alike related otherInstruction) :
    (block.append instruction).Alike related (other.append otherInstruction) :=
  ⟨alike.id, alike.label, List.rel_append alike.instructions (.cons instructions .nil),
    alike.terminator⟩

theorem close (alike : block.Alike related other) (terminator : Terminator) :
    (block.close terminator).Alike related (other.close terminator) :=
  ⟨alike.id, alike.label, alike.instructions, rfl⟩

end BasicBlock.Alike

theorem Function.Alike.modifyBlock {function other : Function} (alike : function.Alike related other)
    (id : BlockId) {change otherChange : BasicBlock → BasicBlock}
    (changes : ∀ {block other : BasicBlock}, block.Alike related other →
      (change block).Alike related (otherChange other)) :
    (function.modifyBlock id change).Alike related (other.modifyBlock id otherChange) :=
  { alike with blocks := forall₂_modify alike.blocks id.index changes }

/-- Two drafts of functions that are alike, with the cursor on the same block. -/
structure Draft.Alike (related : FunctionId → FunctionId → Prop) (draft other : Draft) : Prop where
  function : draft.function.Alike related other.function
  cursor : draft.cursor = other.cursor

namespace Draft.Alike

variable {draft other : Draft}

/-- Functions that are alike have the same numbers of blocks and of local slots. -/
theorem nextBlock_eq (alike : draft.Alike related other) : draft.nextBlock = other.nextBlock := by
  rw [nextBlock, nextBlock, alike.function.blocks.length_eq]

theorem nextLocal_eq (alike : draft.Alike related other) : draft.nextLocal = other.nextLocal := by
  rw [nextLocal, nextLocal, alike.function.locals]

theorem write (alike : draft.Alike related other) {instruction otherInstruction : Instruction}
    (instructions : instruction.Alike related otherInstruction) :
    (draft.write instruction).Alike related (other.write otherInstruction) where
  function := by
    have appended : (draft.function.modifyBlock draft.cursor fun block => block.append instruction).Alike
        related (other.function.modifyBlock other.cursor fun block => block.append otherInstruction) := by
      rw [alike.cursor]
      exact alike.function.modifyBlock other.cursor fun blocks => blocks.append instructions
    have supplies : (draft.write instruction).function.valueSupply =
        (other.write otherInstruction).function.valueSupply := by
      rw [valueSupply_write, valueSupply_write, alike.function.valueSupply, instructions.dest?_eq]
    exact { appended with valueSupply := supplies }
  cursor := alike.cursor

theorem close (alike : draft.Alike related other) (terminator : Terminator) :
    (draft.close terminator).Alike related (other.close terminator) where
  function := by
    rw [Draft.close, Draft.close, alike.cursor]
    exact alike.function.modifyBlock other.cursor fun blocks => blocks.close terminator
  cursor := alike.cursor

theorem newBlock (alike : draft.Alike related other) (label : String) :
    (draft.newBlock label).2.Alike related (other.newBlock label).2 where
  function :=
    { alike.function with
      blocks := by
        show List.Forall₂ _ (draft.function.blocks ++ [.empty draft.nextBlock (some label)])
          (other.function.blocks ++ [.empty other.nextBlock (some label)])
        rw [alike.nextBlock_eq]
        exact List.rel_append alike.function.blocks (.cons (.empty _ _) .nil) }
  cursor := alike.cursor

theorem moveTo (alike : draft.Alike related other) (block : BlockId) :
    (draft.moveTo block).Alike related (other.moveTo block) :=
  ⟨alike.function, rfl⟩

theorem reserve (alike : draft.Alike related other) (name : String) (type : ValueType) :
    (draft.reserve name type).2.Alike related (other.reserve name type).2 where
  function :=
    { alike.function with
      locals := by
        rw [locals_reserve, locals_reserve, alike.function.locals, alike.nextLocal_eq]
      blocks := by
        show List.Forall₂ _ (draft.function.blocks.modify draft.function.entry.index fun block =>
            block.append (.reserve draft.nextLocal type))
          (other.function.blocks.modify other.function.entry.index fun block =>
            block.append (.reserve other.nextLocal type))
        rw [alike.function.entry, alike.nextLocal_eq]
        exact forall₂_modify alike.function.blocks _ fun blocks => blocks.append (.same rfl) }
  cursor := alike.cursor

theorem isClosed_eq (alike : draft.Alike related other) : draft.isClosed = other.isClosed := by
  rw [isClosed_eq_any, isClosed_eq_any, Function.block?, Function.block?, alike.cursor]
  have blocks := alike.function.blocks
  generalize draft.function.blocks = items at blocks ⊢
  generalize other.function.blocks = others at blocks ⊢
  generalize other.cursor.index = index
  induction blocks generalizing index with
  | nil => rfl
  | cons first _ ih =>
      cases index with
      | zero =>
          show BasicBlock.isClosed _ = BasicBlock.isClosed _
          rw [BasicBlock.isClosed, BasicBlock.isClosed, first.terminator]
      | succ index => exact ih index

theorem fallThrough (alike : draft.Alike related other) (target : BlockId) :
    (draft.fallThrough target).Alike related (other.fallThrough target) := by
  unfold Draft.fallThrough
  rw [alike.isClosed_eq]
  split
  · exact alike
  · exact alike.close _

end Draft.Alike

end Ir

namespace Lowering

/-- The spill slots are those of the module, and there are at least so many. -/
structure Progress.Supplied (count : Nat) (progress : Progress) : Prop where
  pooled : progress.Pooled
  enough : count ≤ progress.spills.slots.length

namespace Progress.Supplied

variable {count : Nat}

/-- The first spill slots are the first slots of the module. -/
theorem slot {index : Nat} {progress : Progress} (supplied : progress.Supplied count)
    (bound : index < count) : progress.spills.slots[index]? = some ⟨index⟩ := by
  have pooled : progress.spills.slots = spillSlots progress.module.globals.length := supplied.pooled
  have enough := supplied.enough
  rw [pooled, length_spillSlots] at enough
  rw [pooled, spillSlots, List.getElem?_map, List.getElem?_range (Nat.lt_of_lt_of_le bound enough)]
  rfl

theorem fewer {fewer : Nat} {progress : Progress} (supplied : progress.Supplied count)
    (isFewer : fewer ≤ count) : progress.Supplied fewer :=
  ⟨supplied.pooled, Nat.le_trans isFewer supplied.enough⟩

theorem reserved {state : State} (supplied : state.progress.Supplied count) (more : Nat) :
    (state.reserved more).progress.Supplied (max count more) where
  pooled := State.pooled_reserved supplied.pooled more
  enough := by
    have size := SpillSlots.size_reserve state.spills state.module more
    have enough : count ≤ state.spills.slots.length := supplied.enough
    show max count more ≤ (state.spills.reserve state.module more).1.size
    rw [size, SpillSlots.size]
    omega

/-- A builtin that is declared leaves the spill slots alone. -/
theorem imported {state : State} (supplied : state.progress.Supplied count)
    (external : Ir.External) : (state.imported external).progress.Supplied count where
  pooled := by
    have pooled : state.spills.slots = spillSlots state.module.globals.length := supplied.pooled
    show state.spills.slots = spillSlots (state.imported external).module.globals.length
    rw [(state.progress_imported external).2, pooled]
  enough := supplied.enough

end Progress.Supplied

/-- Two states of lowerings of one function in two programs. -/
structure State.Alike (related : Ir.FunctionId → Ir.FunctionId → Prop) (count : Nat)
    (state other : State) : Prop where
  draft : state.draft.Alike related other.draft
  scope : state.scope = other.scope
  loops : state.loops = other.loops
  supplied : state.progress.Supplied count
  otherSupplied : other.progress.Supplied count

namespace State.Alike

variable {related : Ir.FunctionId → Ir.FunctionId → Prop} {count : Nat} {state other : State}

/-- Drafts may be edited alike. -/
theorem redraft (alike : state.Alike related count other) {draft otherDraft : Ir.Draft}
    (drafts : draft.Alike related otherDraft) :
    State.Alike related count { state with draft := draft } { other with draft := otherDraft } :=
  ⟨drafts, alike.scope, alike.loops, alike.supplied, alike.otherSupplied⟩

/-- Scopes may be changed alike. -/
theorem rescope (alike : state.Alike related count other) (change : Scope → Scope) :
    State.Alike related count { state with scope := change state.scope }
      { other with scope := change other.scope } :=
  ⟨alike.draft, congrArg change alike.scope, alike.loops, alike.supplied, alike.otherSupplied⟩

/-- Loops may be entered and left alike. -/
theorem reloop (alike : state.Alike related count other) (change : Loops → Loops) :
    State.Alike related count { state with loops := change state.loops }
      { other with loops := change other.loops } :=
  ⟨alike.draft, alike.scope, congrArg change alike.loops, alike.supplied, alike.otherSupplied⟩

theorem declared (alike : state.Alike related count other) (name : String) (type : Ir.ValueType) :
    State.Alike related count (state.declared name type) (other.declared name type) where
  draft := alike.draft.reserve name type
  scope := by
    show state.scope.bind _ = other.scope.bind _
    rw [alike.scope, alike.draft.nextLocal_eq]
  loops := alike.loops
  supplied := alike.supplied
  otherSupplied := alike.otherSupplied

end State.Alike

/-- How a called name is resolved in the contexts of two programs: alike up to the numbers of functions. -/
inductive Target.Alike (related : Ir.FunctionId → Ir.FunctionId → Prop) : Target → Target → Prop where
  | builtin (builtin : Builtin) : Target.Alike related (.builtin builtin) (.builtin builtin)
  | function {signature other : Signature} (results : signature.results = other.results)
      (isRelated : related signature.id other.id) :
      Target.Alike related (.function signature) (.function other)

/-- Expressions are lowered alike where the names that they call are resolved alike. -/
theorem congruence_alike {related : Ir.FunctionId → Ir.FunctionId → Prop} {first second : Context}
    {called : String → Prop} (types : first.types = second.types)
    (resolved : ∀ name, called name → ∃ target other, first.resolveCall name = .ok target ∧
      second.resolveCall name = .ok other ∧ target.Alike related other) :
    Congruence first second (fun _ => True) called (State.Alike related) where
  types := types
  resolved := by
    intro name isCalled
    obtain ⟨target, other, isTarget, isOther, alike⟩ := resolved name isCalled
    rw [isTarget, isOther]
    cases alike with
    | builtin builtin => exact .builtin builtin
    | function results isRelated =>
        exact .function results fun dest arguments states =>
          states.redraft (states.draft.write (.call isRelated dest arguments))
  lookup := fun alike _ => by rw [alike.scope]
  supply := fun alike => alike.draft.function.valueSupply
  write := fun _ alike plain => alike.redraft (alike.draft.write (.same plain))
  imported := fun external alike =>
    ⟨alike.draft, alike.scope, alike.loops, alike.supplied.imported external,
      alike.otherSupplied.imported external⟩
  weaken := fun alike isFewer =>
    ⟨alike.draft, alike.scope, alike.loops, alike.supplied.fewer isFewer,
      alike.otherSupplied.fewer isFewer⟩
  reserved := fun more alike =>
    ⟨alike.draft, alike.scope, alike.loops, alike.supplied.reserved more,
      alike.otherSupplied.reserved more⟩
  spill := fun alike bound => ⟨_, alike.supplied.slot bound, alike.otherSupplied.slot bound⟩

end Lowering

end YulLowering
