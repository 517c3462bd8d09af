import YulLowering.Proofs.Frames.Blocks

/-!
# Scopes as stacks of frames

A scope keeps all visible declarations in one list, with the lengths that the list had where blocks were opened.
It answers as a stack does that has a frame for each open block, after any declarations, openings and closings,
also where more is closed than has been opened. The slots that it gives out are numbered in the order of the
declarations, and each is reserved once, in the entry block.
-/

namespace YulLowering

namespace Ir

/-! ## Reserving many slots -/

namespace LocalSlot

/-- The instruction that reserves a slot. -/
def reservation (slot : LocalSlot) : Instruction :=
  .reserve slot.id slot.type

/-- The slots of declared variables, with the numbers from `first` on. -/
def numbered (first : Nat) (declared : List (String × ValueType)) : List LocalSlot :=
  (declared.zipIdx first).map fun ((name, type), index) => ⟨⟨index⟩, name, type⟩

@[simp] theorem length_numbered (first : Nat) (declared : List (String × ValueType)) :
    (numbered first declared).length = declared.length := by
  simp [numbered]

theorem numbered_concat (first : Nat) (declared : List (String × ValueType)) (name : String)
    (type : ValueType) : numbered first (declared ++ [(name, type)]) =
      numbered first declared ++ [⟨⟨first + declared.length⟩, name, type⟩] := by
  simp [numbered, List.zipIdx_append]

end LocalSlot

namespace Draft

/-- Add slots, and put one reservation for each at the end of the entry block. -/
def reserveAll (draft : Draft) (slots : List LocalSlot) : Draft where
  function :=
    { draft.function.modifyBlock draft.function.entry fun block =>
        block.appendAll (slots.map LocalSlot.reservation) with
      locals := draft.function.locals ++ slots }
  cursor := draft.cursor

theorem reserveAll_nil (draft : Draft) : draft.reserveAll [] = draft := by
  simp only [reserveAll, Function.modifyBlock, List.map_nil, BasicBlock.appendAll_nil, List.append_nil]
  rw [show (fun block : BasicBlock => block) = id from rfl, List.modify_id]

/-- A slot that is reserved after others comes last. -/
theorem reserve_reserveAll (draft : Draft) (slots : List LocalSlot) (name : String) (type : ValueType) :
    ((draft.reserveAll slots).reserve name type).2 =
      draft.reserveAll (slots ++ [⟨(draft.reserveAll slots).nextLocal, name, type⟩]) := by
  simp [reserve, reserveAll, Function.pushLocal, Function.modifyBlock, List.modify_modify_eq,
    Function.comp_def, BasicBlock.append, BasicBlock.appendAll, LocalSlot.reservation, nextLocal]

end Draft

end Ir

namespace Lowering

namespace Scope

/-- What a scope is told to do. -/
inductive Operation where
  | declare (name : String) (type : Ir.ValueType)
  | enter
  | leave
deriving DecidableEq, Repr

/-- The variable that an operation declares. -/
def Operation.declared? : Operation → Option (String × Ir.ValueType)
  | declare name type => some (name, type)
  | enter | leave => none

end Scope

open Scope (Operation)

/-! ## Stacks of frames -/

/-- The declarations of the open blocks, frame by frame, with the newest declaration and the innermost block
first. The outermost block is always open. -/
structure Frames where
  innermost : List Binding
  around : List (List Binding)
  /-- The number of the next slot. -/
  next : Nat
deriving DecidableEq, Repr

namespace Frames

/-- One frame without declarations. -/
def empty (next : Nat) : Frames :=
  ⟨[], [], next⟩

/-- All frames, the innermost one first. -/
def all (frames : Frames) : List (List Binding) :=
  frames.innermost :: frames.around

/-- A declaration goes to the innermost frame, a block gets a frame, and a frame is dropped unless it is the
only one. -/
def step (frames : Frames) : Operation → Frames
  | .declare name type =>
    { frames with
      innermost := ⟨name, ⟨frames.next⟩, type⟩ :: frames.innermost
      next := frames.next + 1 }
  | .enter => { frames with innermost := [], around := frames.all }
  | .leave =>
    match frames.around with
    | [] => frames
    | innermost :: around => { frames with innermost := innermost, around := around }

theorem next_leave (frames : Frames) : (frames.step .leave).next = frames.next := by
  rcases frames with ⟨_, _ | _, _⟩ <;> rfl

/-- The stack after operations. -/
def after (frames : Frames) (operations : List Operation) : Frames :=
  operations.foldl step frames

/-- The most recent declaration of a name in the innermost frame that has one. -/
def lookup (frames : Frames) (name : String) : Option Binding :=
  frames.all.findSome? fun frame => frame.find? fun binding => binding.name == name

/-- The number of declarations in all frames. -/
def size (frames : Frames) : Nat :=
  frames.all.foldr (fun frame total => frame.length + total) 0

theorem size_eq_length (frames : Frames) : frames.size = frames.all.flatten.length := by
  have total (frames : List (List Binding)) :
      frames.foldr (fun frame total => frame.length + total) 0 = frames.flatten.length := by
    induction frames with
    | nil => rfl
    | cons frame around ih => simp [ih]
  exact total frames.all

end Frames

/-! ## Scopes that stand for stacks -/

namespace Scope

/-- For each frame, how many declarations it and the frames around it have. -/
def levels : List (List Binding) → List Nat
  | [] => []
  | frame :: around => (frame :: around).flatten.length :: levels around

theorem level_le {frames : List (List Binding)} {level : Nat} (member : level ∈ levels frames) :
    level ≤ frames.flatten.length := by
  induction frames with
  | nil => cases member
  | cons frame around ih =>
      rcases List.mem_cons.mp member with rfl | inner
      · exact Nat.le_refl _
      · have bounded := ih inner
        simp only [List.flatten_cons, List.length_append]
        omega

theorem levels_pairwise (frames : List (List Binding)) :
    (levels frames).Pairwise fun inner outer => outer ≤ inner := by
  induction frames with
  | nil => exact .nil
  | cons frame around ih =>
      constructor
      · intro outer member
        have bounded := level_le member
        simp only [List.flatten_cons, List.length_append]
        omega
      · exact ih

/-- A scope has the declarations of a stack, the newest one last, and marks where each frame but the outermost
one begins. -/
structure Represents (scope : Scope) (frames : Frames) : Prop where
  bindings : scope.bindings = frames.all.flatten.reverse
  openings : scope.openings = levels frames.around

theorem represents_empty (next : Nat) : empty.Represents (.empty next) where
  bindings := rfl
  openings := rfl

namespace Represents

variable {scope : Scope} {frames : Frames}

theorem declare (represents : scope.Represents frames) (name : String) (type : Ir.ValueType) :
    (scope.bind ⟨name, ⟨frames.next⟩, type⟩).Represents (frames.step (.declare name type)) where
  bindings := by simp [bind, Frames.step, Frames.all, represents.bindings]
  openings := represents.openings

theorem enter (represents : scope.Represents frames) : scope.enter.Represents (frames.step .enter) where
  bindings := by simp [Scope.enter, Frames.step, Frames.all, represents.bindings]
  openings := by
    simp [Scope.enter, Frames.step, Frames.all, levels, represents.bindings, represents.openings,
      Nat.add_comm]

/-- A mark is as long as what stays when the frame is dropped. -/
theorem leave (represents : scope.Represents frames) : scope.leave.Represents (frames.step .leave) := by
  obtain ⟨innermost, around, next⟩ := frames
  have openings := represents.openings
  cases around with
  | nil =>
      have unopened : scope.leave = scope := by simp [Scope.leave, openings, levels]
      rw [unopened]
      exact represents
  | cons frame around =>
      have closed : scope.leave =
          ⟨scope.bindings.take (frame :: around).flatten.length, levels around⟩ := by
        simp [Scope.leave, openings, levels]
      rw [closed]
      constructor
      · simp only [represents.bindings, Frames.all, Frames.step, List.flatten_cons, List.reverse_append]
        exact List.take_left' (by simp [Nat.add_comm])
      · rfl

theorem lookup_eq (represents : scope.Represents frames) (name : String) :
    scope.lookup name = frames.lookup name := by
  rw [Scope.lookup, represents.bindings, List.reverse_reverse, List.find?_flatten]
  rfl

theorem size_eq (represents : scope.Represents frames) : scope.size = frames.size := by
  rw [Scope.size, represents.bindings, List.length_reverse, frames.size_eq_length]

/-- The marks do not exceed the number of declarations, nor does a mark exceed those of inner blocks. -/
theorem ordered (represents : scope.Represents frames) :
    (scope.bindings.length :: scope.openings).Pairwise fun inner outer => outer ≤ inner := by
  have all := levels_pairwise frames.all
  rw [represents.bindings, represents.openings, List.length_reverse]
  exact all

end Represents

end Scope

/-! ## Runs -/

/-- A scope and the function that it reserves slots in. -/
structure Scoping where
  scope : Scope
  draft : Ir.Draft
  /-- The slots that have been given out, in order. -/
  given : List Ir.LocalId
deriving DecidableEq, Repr

namespace Scoping

/-- An empty scope. -/
def start (draft : Ir.Draft) : Scoping :=
  ⟨.empty, draft, []⟩

def step (scoping : Scoping) : Operation → Scoping
  | .declare name type =>
    let (slot, scope, draft) := scoping.scope.declare scoping.draft name type
    ⟨scope, draft, scoping.given ++ [slot]⟩
  | .enter => { scoping with scope := scoping.scope.enter }
  | .leave => { scoping with scope := scoping.scope.leave }

/-- The scope and the function after operations. -/
def after (scoping : Scoping) (operations : List Operation) : Scoping :=
  operations.foldl step scoping

/-- The scope stands for a stack, and the declarations made so far have got consecutive slots. -/
structure Refines (draft : Ir.Draft) (declared : List (String × Ir.ValueType)) (scoping : Scoping)
    (frames : Frames) : Prop where
  represents : scoping.scope.Represents frames
  next : frames.next = draft.function.locals.length + declared.length
  given : scoping.given =
    (List.range' draft.function.locals.length declared.length).map Ir.LocalId.mk
  reserved : scoping.draft =
    draft.reserveAll (Ir.LocalSlot.numbered draft.function.locals.length declared)

namespace Refines

theorem start (draft : Ir.Draft) : Refines draft [] (start draft) (.empty draft.function.locals.length) where
  represents := Scope.represents_empty _
  next := rfl
  given := rfl
  reserved := draft.reserveAll_nil.symm

variable {draft : Ir.Draft} {declared : List (String × Ir.ValueType)} {scoping : Scoping} {frames : Frames}

theorem nextLocal (refines : Refines draft declared scoping frames) :
    scoping.draft.nextLocal = ⟨frames.next⟩ := by
  rw [refines.reserved, refines.next]
  simp [Ir.Draft.nextLocal, Ir.Draft.reserveAll]

theorem step (refines : Refines draft declared scoping frames) (operation : Operation) :
    Refines draft (declared ++ operation.declared?.toList) (scoping.step operation)
      (frames.step operation) := by
  cases operation with
  | declare name type =>
      have slot := refines.nextLocal
      constructor
      case represents =>
        have represents := refines.represents.declare name type
        rwa [← slot] at represents
      case next => simp [Frames.step, Operation.declared?, refines.next, Nat.add_assoc]
      case given =>
        show scoping.given ++ [scoping.draft.nextLocal] = _
        rw [slot, refines.given, refines.next]
        simp [Operation.declared?, List.range'_concat]
      case reserved =>
        show (scoping.draft.reserve name type).2 = _
        rw [refines.reserved, Ir.Draft.reserve_reserveAll, ← refines.reserved, slot, refines.next]
        simp [Operation.declared?, Ir.LocalSlot.numbered_concat]
  | enter =>
      rw [Operation.declared?, Option.toList_none, List.append_nil]
      exact { refines with represents := refines.represents.enter }
  | leave =>
      rw [Operation.declared?, Option.toList_none, List.append_nil]
      exact { refines with
        represents := refines.represents.leave
        next := frames.next_leave.trans refines.next }

/-- Each operation keeps the scope in step with the stack, so all of them together do. -/
theorem after (refines : Refines draft declared scoping frames) (operations : List Operation) :
    Refines draft (declared ++ operations.filterMap Operation.declared?) (scoping.after operations)
      (frames.after operations) := by
  induction operations generalizing declared scoping frames with
  | nil => simpa [Scoping.after, Frames.after] using refines
  | cons operation rest ih =>
      have parts : (operation :: rest).filterMap Operation.declared? =
          operation.declared?.toList ++ rest.filterMap Operation.declared? := by
        cases declares : operation.declared? <;> simp [declares]
      rw [parts, ← List.append_assoc]
      exact ih (refines.step operation)

end Refines

end Scoping

/-- A scope answers as a stack of frames does. It gives out the numbers of slots in order, none of them twice,
and reserves each slot once, in the entry block. In a new function the numbers are those from zero on, and its
one block holds the reservations. -/
theorem Scoping.after_refines_frames (operations : List Operation) :
    let declared := operations.filterMap Operation.declared?
    (∀ draft : Ir.Draft,
      let first := draft.function.locals.length
      let scoping := (start draft).after operations
      let frames := (Frames.empty first).after operations
      (∀ name, scoping.scope.lookup name = frames.lookup name) ∧
        scoping.scope.size = frames.size ∧
        scoping.given = (List.range' first declared.length).map Ir.LocalId.mk ∧
        scoping.draft = draft.reserveAll (Ir.LocalSlot.numbered first declared) ∧
        (scoping.scope.size :: scoping.scope.openings).Pairwise fun inner outer => outer ≤ inner) ∧
      ∀ (name : String) (parameterTypes : List Ir.ValueType) (resultType : Ir.ValueType) (resultCount : Nat),
        let scoping := (start (.start (.create name parameterTypes resultType resultCount))).after operations
        scoping.given = (List.range declared.length).map Ir.LocalId.mk ∧
          scoping.draft.function.locals = Ir.LocalSlot.numbered 0 declared ∧
          scoping.draft.function.blocks = [⟨⟨0⟩, some "entry",
            (Ir.LocalSlot.numbered 0 declared).map Ir.LocalSlot.reservation, .unreachable⟩] := by
  have refines (draft : Ir.Draft) := (Refines.start draft).after operations
  constructor
  · intro draft
    have represents := (refines draft).represents
    exact ⟨represents.lookup_eq, represents.size_eq, (refines draft).given, (refines draft).reserved,
      represents.ordered⟩
  · intro name parameterTypes resultType resultCount
    have refines := refines (.start (.create name parameterTypes resultType resultCount))
    refine ⟨?_, ?_, ?_⟩
    · rw [List.range_eq_range']
      exact refines.given
    · rw [refines.reserved]
      rfl
    · rw [refines.reserved]
      rfl

end Lowering

end YulLowering
