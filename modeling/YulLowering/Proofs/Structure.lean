import YulLowering.Proofs.Programs
import YulLowering.Proofs.Validation

/-!
# The structure of lowered functions

Every function of a lowered module is complete: its blocks are all closed, its edges all end at
blocks, and exactly one block returns. That block can be reached from every other, also from those
that hold dead code. Complete functions are structurally valid, so validation never finds fault with
a lowered module.
-/

namespace YulLowering

namespace Ir

namespace Function

/-- Control flow as it is in a finished function. -/
structure Complete (function : Function) : Prop where
  entry : function.entry = ⟨0⟩
  present : (function.block? function.entry).isSome
  untargeted : ∀ source, ¬ function.Edge source function.entry
  closed : ∀ id block, function.block? id = some block → block.terminator ≠ .unreachable
  within : ∀ source target, function.Edge source target → (function.block? target).isSome
  returns : ∃ exit,
    (∀ id, (∃ block value, function.block? id = some block ∧ block.terminator = .ret value) ↔
      id = exit) ∧
    ∀ id, (function.block? id).isSome → function.Leads id exit

/-- A complete function is well formed: all its blocks are closed, not only those that control can reach. -/
theorem Complete.wellFormed {function : Function} (complete : function.Complete) :
    function.WellFormed where
  nonempty := by
    intro empty
    have present := complete.present
    rw [block?, empty] at present
    cases present
  entry := complete.present
  within := complete.within
  closed id block _ found := complete.closed id block found

end Function

/-- Where every block leads to the one under the cursor, returning there completes the function. -/
theorem Draft.Flows.complete {draft : Draft} (flows : draft.Flows []) (settled : draft.Settled [])
    (isOpen : draft.IsOpen) (isFirst : draft.function.entry = ⟨0⟩) (value : Option Value) :
    (draft.close (.ret value)).function.Complete := by
  have grows := grows_close isOpen (.ret value)
  have atCursor : (draft.close (.ret value)).function.exit? draft.cursor = some (.ret value) := by
    obtain ⟨block, found, -⟩ := isOpen
    rw [exit?_close, if_pos rfl, Function.exit?, found]
    rfl
  have elsewhere {id : BlockId} (other : id ≠ draft.cursor) :
      (draft.close (.ret value)).function.exit? id = draft.function.exit? id := by
    rw [exit?_close, if_neg (Ne.symm other)]
  have before {source target : BlockId}
      (edge : (draft.close (.ret value)).function.Edge source target) :
      draft.function.Edge source target := by
    obtain ⟨exit, isExit, leads⟩ := edge
    by_cases isCursor : source = draft.cursor
    · rw [isCursor, atCursor] at isExit
      cases isExit
      cases leads
    · rw [elsewhere isCursor] at isExit
      exact ⟨exit, isExit, leads⟩
  have exits {id : BlockId} {block : BasicBlock}
      (found : (draft.close (.ret value)).function.block? id = some block) :
      (draft.close (.ret value)).function.exit? id = some block.terminator := by
    rw [Function.exit?, found]
    rfl
  constructor
  case entry => exact isFirst
  case present => exact grows.isSome_block? settled.entry
  case untargeted =>
    intro source edge
    exact (flows.within (before edge)).1 rfl
  case within =>
    intro source target edge
    have present := (flows.within (before edge)).2
    rw [Function.isSome_exit?] at present
    exact grows.isSome_block? present
  case closed =>
    intro id block found unset
    have isExit := exits found
    by_cases isCursor : id = draft.cursor
    · rw [isCursor, atCursor, unset] at isExit
      cases isExit
    · rw [elsewhere isCursor, unset] at isExit
      rcases flows.unclosed id isExit with same | waits
      · exact isCursor same
      · cases waits
  case returns =>
    refine ⟨draft.cursor, ?_, ?_⟩
    · intro id
      constructor
      · rintro ⟨block, other, found, isReturn⟩
        have isExit := exits found
        by_contra isCursor
        rw [elsewhere isCursor, isReturn] at isExit
        exact flows.returnless id other isExit
      · rintro rfl
        obtain ⟨block, found, isReturn⟩ := Option.map_eq_some_iff.mp atCursor
        exact ⟨block, value, found, isReturn⟩
    · intro id present
      apply grows.leads
      apply flows.leads_cursor
      rw [isSome_block?_close] at present
      rwa [Function.isSome_exit?]

/-- A module of complete functions has no problems. -/
theorem Module.problems_eq_nil {module : Module}
    (complete : ∀ function ∈ module.functions, function.Complete) : module.problems = [] :=
  module.problems_eq_nil_iff.mpr fun function member => (complete function member).wellFormed

end Ir

namespace Lowering

theorem Origin.complete {context : Context} {last : Progress} {definition : Definition}
    {function : Ir.Function} (origin : Origin context last definition function) :
    function.Complete := by
  have entry : origin.finish.draft.function.entry = ⟨0⟩ :=
    origin.moves.grows.entry.trans origin.begins.entry
  rw [origin.function_eq]
  exact (flows_writeAll origin.flows _).complete (settled_writeAll origin.settled origin.isOpen _)
    (isOpen_writeAll origin.isOpen _) ((entry_writeAll _ _).trans entry) _

end Lowering

/-- Lowered modules pass validation, and each of their functions is complete. -/
theorem Block.complete_of_toModule {dialect : Dialect} {types : Lowering.TypeNames} {name : String}
    {program : Block} {module : Ir.Module}
    (lowered : program.toModule dialect types name = .ok module) :
    module.problems = [] ∧ ∀ function ∈ module.functions, function.Complete := by
  obtain ⟨compiled⟩ := Lowering.toModule_inv lowered
  have complete : ∀ function ∈ module.functions, function.Complete := by
    intro function member
    obtain ⟨definition, ⟨origin⟩⟩ := compiled.origin_of_mem member
    exact origin.complete
  exact ⟨Ir.Module.problems_eq_nil complete, complete⟩

/-- A loop whose body leaves it at once; another loop and a switch follow where control cannot go. -/
def deadCode : Block :=
  [.definition "f" [⟨"a", "u8"⟩] [⟨"r", ""⟩]
    [.loop [] (.identifier "a") []
      [.breakLoop,
        .loop [] (.literal (.boolean false)) [] [.continueLoop],
        .switch (.identifier "r") [⟨none, []⟩, ⟨some (.number "1" ""), [.breakLoop]⟩, ⟨none, []⟩]]]]

theorem Block.complete_of_toModule_deadCode :
    ∃ module, deadCode.toModule (.empty .strict) .standard "m" = .ok module ∧
      module.problems = [] ∧ ∀ function ∈ module.functions, function.Complete := by
  have isOk : (deadCode.toModule (.empty .strict) .standard "m").isOk = true := by decide +kernel
  cases lowered : deadCode.toModule (.empty .strict) .standard "m" with
  | error error =>
      rw [lowered] at isOk
      cases isOk
  | ok module => exact ⟨module, rfl, Block.complete_of_toModule lowered⟩

end YulLowering
