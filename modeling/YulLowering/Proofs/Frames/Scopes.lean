import YulLowering.Proofs.Frames.Steps
import YulLowering.Proofs.Loops
import YulLowering.Proofs.StatementRuns

/-!
# Scopes and loops after a statement

A statement gives back the scope and the loops that it has found, also where it stops with a fault in the
middle of its blocks and loops. The one thing that stays behind is what a declaration makes visible, and
where the declaration fails, this is an initial part of its variables.
-/

namespace YulLowering

/-- The variables that a statement makes visible for those that follow it. -/
def Statement.introduced : Statement → List TypedName
  | .declaration declared _ => declared
  | _ => []

namespace Lowering

variable {context : Context}

/-- The slot that a visible declaration is for. -/
def Binding.localSlot (binding : Binding) : Ir.LocalSlot :=
  ⟨binding.slot, binding.name, binding.type⟩

/-! ## What stays behind -/

/-- The scope and the loops are those that were found. -/
structure State.Restored (state later : State) : Prop where
  scope : later.scope = state.scope
  loops : later.loops = state.loops

/-- The loops are those that were found, and what was visible still is. -/
structure State.Extended (state later : State) : Prop where
  scope : state.scope.Extends later.scope
  loops : later.loops = state.loops

/-- No variable has been declared, in whatever block. -/
structure State.SameVariables (state later : State) : Prop extends State.Restored state later where
  locals : later.draft.function.locals = state.draft.function.locals

/-- An initial part of some variables has become visible, each with a slot of its own. The slots are
those that come after the ones there were. -/
structure State.Introduced (context : Context) (declared : List TypedName) (state : State)
    (bindings : List Binding) (later : State) : Prop where
  loops : later.loops = state.loops
  openings : later.scope.openings = state.scope.openings
  visible : later.scope.bindings = state.scope.bindings ++ bindings
  named : List.Forall₂ (fun target binding => binding.name = target.name ∧
    context.types.resolve target.typeName = .ok binding.type)
    (declared.take bindings.length) bindings
  slots : bindings.map Binding.slot =
    (List.range' state.draft.function.locals.length bindings.length).map Ir.LocalId.mk
  recorded : (later.draft.function.locals.drop state.draft.function.locals.length).take
    bindings.length = bindings.map Binding.localSlot

instance : IsPreorder State State.Restored where
  refl _ := ⟨rfl, rfl⟩
  trans _ _ _ first second :=
    ⟨second.scope.trans first.scope, second.loops.trans first.loops⟩

instance : IsPreorder State State.Extended where
  refl _ := ⟨.refl _, rfl⟩
  trans _ _ _ first second :=
    ⟨first.scope.trans second.scope, second.loops.trans first.loops⟩

instance : StraightLine State.SameVariables where
  refl _ := ⟨⟨rfl, rfl⟩, rfl⟩
  trans _ _ _ first second :=
    ⟨trans_of State.Restored first.toRestored second.toRestored, second.locals.trans first.locals⟩
  written _ _ := ⟨⟨rfl, rfl⟩, rfl⟩
  reserved _ _ := ⟨⟨rfl, rfl⟩, rfl⟩
  imported _ _ := ⟨⟨rfl, rfl⟩, rfl⟩

theorem State.Restored.extended {state later : State} (restored : state.Restored later) :
    state.Extended later := by
  refine ⟨?_, restored.loops⟩
  rw [restored.scope]
  exact .refl _

namespace State.Introduced

variable {state later last : State} {declared : List TypedName} {bindings : List Binding}

/-- What is restored introduces nothing. -/
theorem of_restored (restored : state.Restored later) (declared : List TypedName) :
    state.Introduced context declared [] later where
  loops := restored.loops
  openings := congrArg Scope.openings restored.scope
  visible := by rw [restored.scope, List.append_nil]
  named := .nil
  slots := rfl
  recorded := rfl

theorem extended (introduced : state.Introduced context declared bindings later) :
    state.Extended later :=
  ⟨⟨⟨bindings, introduced.visible.symm⟩, introduced.openings⟩, introduced.loops⟩

/-- Where there is nothing to introduce, all is restored. -/
theorem restored (introduced : state.Introduced context [] bindings later) : state.Restored later := by
  have named := introduced.named
  rw [List.take_nil] at named
  cases named
  have visible := introduced.visible.trans (List.append_nil _)
  refine ⟨?_, introduced.loops⟩
  calc later.scope = ⟨later.scope.bindings, later.scope.openings⟩ := rfl
    _ = state.scope := by rw [visible, introduced.openings]

/-- Code that declares nothing may follow. -/
theorem after (introduced : state.Introduced context declared bindings later)
    (same : later.SameVariables last) : state.Introduced context declared bindings last where
  loops := same.loops.trans introduced.loops
  openings := (congrArg Scope.openings same.scope).trans introduced.openings
  visible := by rw [same.scope, introduced.visible]
  named := introduced.named
  slots := introduced.slots
  recorded := by rw [same.locals, introduced.recorded]

/-- One variable is declared in front of others. -/
theorem cons {name typeName : String} {type : Ir.ValueType}
    (known : context.types.resolve typeName = .ok type)
    (introduced : (state.declared name type).Introduced context declared bindings later)
    (locals : later.draft.function.locals =
      (state.declared name type).draft.function.locals ++ bindings.map Binding.localSlot) :
    state.Introduced context (⟨name, typeName⟩ :: declared)
      (⟨name, state.draft.nextLocal, type⟩ :: bindings) later where
  loops := introduced.loops
  openings := introduced.openings
  visible := by
    rw [introduced.visible]
    simp [State.declared, Scope.bind]
  named := .cons ⟨rfl, known⟩ introduced.named
  slots := by
    have next : (state.declared name type).draft.function.locals.length =
        state.draft.function.locals.length + 1 := by simp [State.declared]
    rw [List.map_cons, introduced.slots, next, List.length_cons, List.range'_succ, List.map_cons]
    rfl
  recorded := by
    have added : later.draft.function.locals.drop state.draft.function.locals.length =
        (⟨name, state.draft.nextLocal, type⟩ :: bindings).map Binding.localSlot := by
      rw [locals]
      simp [State.declared, Binding.localSlot]
    rw [added, List.take_of_length_le (Nat.le_of_eq (List.length_map _))]

end State.Introduced

/-! ## Declarations -/

/-- The variables of a declaration become visible one after the other, until one has a type that is
not known. -/
theorem introduced_declareAll (declared : List TypedName) (state : State) :
    ∃ bindings, state.Introduced context declared bindings
        ((declareAll context declared).after state).2 ∧
      ((declareAll context declared).after state).2.draft.function.locals =
        state.draft.function.locals ++ bindings.map Binding.localSlot ∧
      ∀ targets, ((declareAll context declared).after state).1 = .ok targets →
        bindings.length = declared.length := by
  induction declared generalizing state with
  | nil => exact ⟨[], .of_restored (refl_of State.Restored state) [], by simp [declareAll], fun _ _ => rfl⟩
  | cons target rest ih =>
      obtain ⟨name, typeName⟩ := target
      rw [declareAll, Step.after_bind, Step.after_ofExcept]
      cases known : context.types.resolve typeName with
      | error fault =>
          exact ⟨[], .of_restored (refl_of State.Restored state) _, by simp, by rintro _ ⟨⟩⟩
      | ok type =>
          obtain ⟨bindings, introduced, locals, complete⟩ := ih (state.declared name type)
          dsimp only
          rw [Step.after_bind, Step.after_declare]
          dsimp only
          rw [Step.after_bind]
          cases taken : (declareAll context rest).after (state.declared name type) with
          | mk outcome later =>
              rw [taken] at introduced locals complete
              have all : later.draft.function.locals = state.draft.function.locals ++
                  (⟨name, state.draft.nextLocal, type⟩ :: bindings : List Binding).map
                    Binding.localSlot := by
                rw [locals]
                simp [State.declared, Binding.localSlot]
              have visible := introduced.cons known locals
              cases outcome with
              | error fault => exact ⟨_, visible, all, by rintro _ ⟨⟩⟩
              | ok others =>
                  exact ⟨_, visible, all, fun _ _ => congrArg (· + 1) (complete others rfl)⟩

/-- What a statement leaves visible: an initial part of what it introduces, and all of it if it
succeeds. -/
def Statement.Restores (context : Context) (statement : Statement) : Prop :=
  ∀ state, ∃ bindings, state.Introduced context statement.introduced bindings
      ((statement.lower context).after state).2 ∧
    (((statement.lower context).after state).1 = .ok () →
      bindings.length = statement.introduced.length)

theorem restores_of_restored {statement : Statement} (nothing : statement.introduced = [])
    (restored : (statement.lower context).Respects State.Restored) :
    Statement.Restores context statement := by
  intro state
  rw [nothing]
  exact ⟨[], .of_restored (restored.holds state) [], fun _ => rfl⟩

theorem Statement.Restores.extended {statement : Statement}
    (restores : Statement.Restores context statement) :
    (statement.lower context).Respects State.Extended := by
  constructor
  intro state
  obtain ⟨bindings, introduced, -⟩ := restores state
  exact introduced.extended

theorem restores_declaration (declared : List TypedName) (value : Option Expression) :
    Statement.Restores context (.declaration declared value) := by
  intro state
  obtain ⟨bindings, introduced, -, complete⟩ := introduced_declareAll declared state
  rw [Statement.lower, Step.after_bind]
  cases taken : (declareAll context declared).after state with
  | mk outcome later =>
      rw [taken] at introduced complete
      cases outcome with
      | error fault => exact ⟨bindings, introduced, by rintro ⟨⟩⟩
      | ok targets =>
          have all := complete targets rfl
          cases value with
          | none => exact ⟨bindings, introduced, fun _ => all⟩
          | some value =>
              have initialises : (assign context targets value).Respects State.SameVariables :=
                StraightLine.respects_assign targets value
              exact ⟨bindings, introduced.after (initialises.holds later), fun _ => all⟩

/-! ## Statements -/

theorem restored_modify (edit : Ir.Draft → Ir.Draft) :
    (Step.modify edit).Respects State.Restored :=
  .modify fun _ => ⟨rfl, rfl⟩

theorem restored_newBlock (label : String) : (newBlock label).Respects State.Restored :=
  .write fun _ => ⟨rfl, rfl⟩

theorem restored_openBlock : openBlock.Respects State.Restored := by
  apply Step.Respects.bind (.inspect _)
  intro isClosed
  split
  · exact .bind (restored_newBlock _) fun _ => restored_modify _
  · exact .pure ()

/-- What has been declared in a block is hidden again. -/
theorem restored_inBlock {step : Step Unit} (extends_ : step.Respects State.Extended) :
    (Step.inBlock step).Respects State.Restored := by
  apply Step.Respects.inBlock
  intro state
  have inside := extends_.holds { state with scope := state.scope.enter }
  exact ⟨inside.scope.leave_eq, inside.loops⟩

theorem restored_inLoop {step : Step Unit} (restores : step.Respects State.Restored)
    (targets : LoopFrame) : (Step.inLoop targets step).Respects State.Restored := by
  apply Step.Respects.inLoop
  intro state
  have inside := restores.holds { state with loops := state.loops.enter targets }
  exact ⟨inside.scope, congrArg Loops.leave inside.loops⟩

theorem restored_leaveIteration (exit : LoopExit) :
    (leaveIteration exit).Respects State.Restored :=
  .bind (.inspect _) fun _ => .bind (.ofExcept _) fun _ => restored_modify _

theorem restored_newArms (scrutinee : Ir.Value) (cases_ : List Case) :
    (newArms scrutinee cases_).Respects State.Restored := by
  fun_induction newArms scrutinee cases_ with
  | case1 => exact .pure _
  | case2 literal _ rest ih =>
      exact .bind (restored_newBlock _) fun _ => .bind (.ofExcept _) fun _ =>
        .bind ih fun _ => .pure _
  | case3 _ rest ih => exact .bind (restored_newBlock _) fun _ => .bind ih fun _ => .pure _

theorem restored_loopRounds (head body step done : Ir.BlockId) {condition : Step Ir.Value}
    {inside advance : Step Unit} (evaluates : condition.Respects State.Restored)
    (performs : inside.Respects State.Extended) (advances : advance.Respects State.Extended) :
    (loopRounds head body step done condition inside advance).Respects State.Restored := by
  have rounds := restored_inLoop (restored_inBlock performs) ⟨done, step⟩
  have steps := restored_inBlock advances
  rw [loopRounds]
  exact .bind (restored_modify _) fun _ => .bind evaluates fun _ => .bind (restored_modify _) fun _ =>
    .bind rounds fun _ => .bind (restored_modify _) fun _ => .bind steps fun _ => restored_modify _

/-- Expressions and assignments declare nothing. -/
theorem restored_of_sameVariables {α : Type} {step : Step α}
    (same : step.Respects State.SameVariables) : step.Respects State.Restored :=
  same.mono State.SameVariables.toRestored

mutual

theorem restores_statement : (statement : Statement) → Statement.Restores context statement
  | .declaration declared value => restores_declaration declared value
  | .block body => by
      apply restores_of_restored rfl
      rw [Statement.lower]
      exact restored_inBlock (extended_statements body)
  | .assignment names value => by
      apply restores_of_restored rfl
      rw [Statement.lower]
      exact .bind (.lookups names) fun targets =>
        restored_of_sameVariables (StraightLine.respects_assign targets value)
  | .expression expression => by
      apply restores_of_restored rfl
      rw [Statement.lower]
      exact restored_of_sameVariables (StraightLine.respects_perform expression)
  | .conditional condition body => by
      apply restores_of_restored rfl
      rw [Statement.lower]
      have evaluates : (condition.lowerToCondition context).Respects State.Restored :=
        restored_of_sameVariables (StraightLine.respects_lowerToCondition condition)
      have performs := restored_inBlock (extended_statements body)
      exact .bind evaluates fun _ => .bind (restored_newBlock _) fun _ =>
        .bind (restored_newBlock _) fun _ => .bind (restored_modify _) fun _ =>
          .bind performs fun _ => restored_modify _
  | .switch scrutinee cases_ => by
      apply restores_of_restored rfl
      rw [Statement.lower]
      have evaluates : (scrutinee.lower context).Respects State.Restored :=
        restored_of_sameVariables (StraightLine.respects_lower scrutinee)
      exact .bind evaluates fun _ => .bind (restored_newBlock _) fun _ =>
        .bind (restored_newArms _ cases_) fun _ => .bind (restored_modify _) fun _ =>
          .bind (restored_bodies _ cases_ _) fun _ => restored_modify _
  | .loop init condition step body => by
      apply restores_of_restored rfl
      rw [Statement.lower_loop]
      have evaluates : (condition.lowerToCondition context).Respects State.Restored :=
        restored_of_sameVariables (StraightLine.respects_lowerToCondition condition)
      have extends_ {part : Step Unit} (restored : part.Respects State.Restored) :
          part.Respects State.Extended := restored.mono State.Restored.extended
      refine .bind (restored_newBlock _) fun _ => .bind (restored_modify _) fun _ =>
        restored_inBlock (.bind (extended_statements init) fun _ => extends_ ?_)
      exact .bind (restored_newBlock _) fun _ => .bind (restored_newBlock _) fun _ =>
        .bind (restored_newBlock _) fun _ => .bind (restored_newBlock _) fun _ =>
          restored_loopRounds _ _ _ _ evaluates (extended_statements body) (extended_statements step)
  | .breakLoop => by
      apply restores_of_restored rfl
      rw [Statement.lower]
      exact restored_leaveIteration .breakLoop
  | .continueLoop => by
      apply restores_of_restored rfl
      rw [Statement.lower]
      exact restored_leaveIteration .continueLoop
  | .definition name _ _ _ => by
      apply restores_of_restored rfl
      rw [Statement.lower]
      exact .throw _
  | .label _ => by
      apply restores_of_restored rfl
      rw [Statement.lower]
      exact .throw _
  | .stackAssignment _ => by
      apply restores_of_restored rfl
      rw [Statement.lower]
      exact .throw _

theorem extended_statements : (statements : List Statement) →
    (Statement.lowerEach context statements).Respects State.Extended
  | [] => by
      rw [Statement.lowerEach]
      exact .pure ()
  | statement :: rest => by
      rw [Statement.lowerEach]
      exact .bind (restored_openBlock.mono State.Restored.extended) fun _ =>
        .bind (restores_statement statement).extended fun _ => extended_statements rest

theorem restored_bodies (done : Ir.BlockId) : (cases_ : List Case) → (blocks : List Ir.BlockId) →
    (Case.lowerEach context done cases_ blocks).Respects State.Restored
  | ⟨_, body⟩ :: rest, block :: blocks => by
      rw [Case.lowerEach]
      exact .bind (restored_modify _) fun _ =>
        .bind (restored_inBlock (extended_statements body)) fun _ =>
          .bind (restored_modify _) fun _ => restored_bodies done rest blocks
  | [], _ => by
      rw [Case.lowerEach]
      · exact .pure ()
      · simp
  | _ :: _, [] => by
      rw [Case.lowerEach]
      · exact .pure ()
      · simp

end

end Lowering

open Lowering in
/-- A statement leaves the loops and the open blocks as it has found them, whether it succeeds or fails.
What it leaves visible is what was visible, followed by an initial part of the variables that it declares;
if it succeeds, these are all of them. Only a declaration declares anything for the statements after it. -/
theorem Statement.restores_scope_and_loops (context : Context) (statement : Statement) (state : State) :
    (statement.introduced = [] → state.Restored ((statement.lower context).after state).2) ∧
      ∃ bindings, state.Introduced context statement.introduced bindings
          ((statement.lower context).after state).2 ∧
        (((statement.lower context).after state).1 = .ok () →
          bindings.length = statement.introduced.length) := by
  obtain ⟨bindings, introduced, complete⟩ := restores_statement statement state
  refine ⟨?_, bindings, introduced, complete⟩
  intro nothing
  rw [nothing] at introduced
  exact introduced.restored

/-- Where the type of the second variable is not known, the first one stays visible. -/
example : (((Statement.declaration [⟨"a", "u8"⟩, ⟨"b", "word"⟩] none).lower
    ⟨.empty .strict, .standard, .empty⟩).after
      ⟨.start (.create "f" [] .void 0), .empty, .empty, .empty, .empty "m"⟩).2.scope.bindings =
        [⟨"a", ⟨0⟩, .int 8⟩] := by decide +kernel

end YulLowering
