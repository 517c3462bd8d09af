import YulLowering.Lowering.Programs
import YulLowering.Proofs.Independence.Alike
import YulLowering.Proofs.Loops

/-!
# Statements are lowered alike

The lowering of a statement reads the draft, the scope, the loops around it and the spill slots. Where two
states are alike in these and the names that the statement calls are resolved alike, both lowerings end in
the same way, and in states that are alike.
-/

namespace YulLowering.Lowering

variable {related : Ir.FunctionId → Ir.FunctionId → Prop} {count : Nat} {first second : Context}
  {called : String → Prop}

/-! ## Blocks and slots -/

theorem agree_newBlock (label : String) :
    Step.Agree (State.Alike related count) (newBlock label) (newBlock label) :=
  .write fun alike => ⟨alike.draft.nextBlock_eq, alike.redraft (alike.draft.newBlock label)⟩

theorem agree_close (terminator : Ir.Terminator) :
    Step.Agree (State.Alike related count) (Step.modify fun draft => draft.close terminator)
      (Step.modify fun draft => draft.close terminator) :=
  .modify fun alike => alike.redraft (alike.draft.close terminator)

theorem agree_moveTo (block : Ir.BlockId) :
    Step.Agree (State.Alike related count) (Step.modify fun draft => draft.moveTo block)
      (Step.modify fun draft => draft.moveTo block) :=
  .modify fun alike => alike.redraft (alike.draft.moveTo block)

theorem agree_close_moveTo (terminator : Ir.Terminator) (block : Ir.BlockId) :
    Step.Agree (State.Alike related count)
      (Step.modify fun draft => (draft.close terminator).moveTo block)
      (Step.modify fun draft => (draft.close terminator).moveTo block) :=
  .modify fun alike => alike.redraft ((alike.draft.close terminator).moveTo block)

theorem agree_fallThrough (target : Ir.BlockId) :
    Step.Agree (State.Alike related count) (Step.modify fun draft => draft.fallThrough target)
      (Step.modify fun draft => draft.fallThrough target) :=
  .modify fun alike => alike.redraft (alike.draft.fallThrough target)

theorem agree_fallThrough_moveTo (target block : Ir.BlockId) :
    Step.Agree (State.Alike related count)
      (Step.modify fun draft => (draft.fallThrough target).moveTo block)
      (Step.modify fun draft => (draft.fallThrough target).moveTo block) :=
  .modify fun alike => alike.redraft ((alike.draft.fallThrough target).moveTo block)

theorem agree_inBlock {step other : Step Unit} (agree : Step.Agree (State.Alike related count) step other) :
    Step.Agree (State.Alike related count) (Step.inBlock step) (Step.inBlock other) :=
  agree.inBlock (fun alike => alike.rescope Scope.enter) fun alike => alike.rescope Scope.leave

theorem agree_inLoop {step other : Step Unit} (targets : LoopFrame)
    (agree : Step.Agree (State.Alike related count) step other) :
    Step.Agree (State.Alike related count) (Step.inLoop targets step) (Step.inLoop targets other) :=
  agree.inLoop (fun alike => alike.reloop fun loops => loops.enter targets)
    fun alike => alike.reloop Loops.leave

theorem agree_openBlock : Step.Agree (State.Alike related count) openBlock openBlock := by
  have looks : Step.Agree (State.Alike related count)
      (Step.inspect fun state => state.draft.isClosed)
      (Step.inspect fun state => state.draft.isClosed) :=
    .inspect fun alike => alike.draft.isClosed_eq
  apply looks.bind
  intro closed
  split
  · apply (agree_newBlock "unreachable").bind
    intro block
    exact agree_moveTo block
  · exact .pure _

theorem agree_leaveIteration (exit : LoopExit) :
    Step.Agree (State.Alike related count) (leaveIteration exit) (leaveIteration exit) := by
  have looks : Step.Agree (State.Alike related count) (Step.inspect State.loops)
      (Step.inspect State.loops) :=
    .inspect fun alike => alike.loops
  apply looks.bind
  intro loops
  apply Step.Agree.ofExcept_bind
  intro target _
  exact agree_close (.jump target)

theorem agree_declare (name : String) (type : Ir.ValueType) :
    Step.Agree (State.Alike related count) (Step.declare name type) (Step.declare name type) :=
  ⟨fun alike => ⟨congrArg Except.ok alike.draft.nextLocal_eq, alike.declared name type⟩⟩

theorem agree_declareAll (types : first.types = second.types) (declared : List TypedName) :
    Step.Agree (State.Alike related count) (declareAll first declared) (declareAll second declared) := by
  induction declared with
  | nil => exact .pure []
  | cons head rest ih =>
      obtain ⟨name, typeName⟩ := head
      rw [declareAll, declareAll, types]
      apply Step.Agree.ofExcept_bind
      intro type _
      apply (agree_declare name type).bind
      intro slot
      apply ih.bind
      intro bindings
      exact .pure _

theorem agree_lookups (names : List String) :
    Step.Agree (State.Alike related count) (names.mapM Step.lookup) (names.mapM Step.lookup) := by
  induction names with
  | nil => exact .pure []
  | cons name rest ih =>
      rw [List.mapM_cons]
      have looks : Step.Agree (State.Alike related count) (Step.lookup name) (Step.lookup name) :=
        .lookup fun alike => by rw [alike.scope]
      apply looks.bind
      intro binding
      apply ih.bind
      intro bindings
      exact .pure _

theorem agree_newArms (scrutinee : Ir.Value) (cases : List Case) :
    Step.Agree (State.Alike related count) (newArms scrutinee cases) (newArms scrutinee cases) := by
  induction cases with
  | nil => exact .pure _
  | cons arm rest ih =>
      obtain ⟨value, body⟩ := arm
      cases value with
      | some literal =>
          apply (agree_newBlock "switch.case").bind
          intro block
          apply Step.Agree.ofExcept_bind
          intro constant _
          apply ih.bind
          intro blocks
          exact .pure _
      | none =>
          apply (agree_newBlock "switch.default").bind
          intro block
          apply ih.bind
          intro blocks
          exact .pure _

/-! ## Statements -/

/-- Expressions that call given names only are lowered alike. -/
abbrev Congruent (related : Ir.FunctionId → Ir.FunctionId → Prop) (first second : Context)
    (called : String → Prop) : Prop :=
  Congruence first second (fun _ => True) called (State.Alike related)

section

variable {condition other : Step Ir.Value} {inside otherInside advance otherAdvance : Step Unit}

/-- The rounds of a loop, if the condition, the body and the step are lowered alike. -/
theorem agree_rounds (head body step done : Ir.BlockId)
    (conditions : Step.Agree (State.Alike related count) condition other)
    (performs : Step.Agree (State.Alike related count) inside otherInside)
    (advances : Step.Agree (State.Alike related count) advance otherAdvance) :
    Step.Agree (State.Alike related count) (loopRounds head body step done condition inside advance)
      (loopRounds head body step done other otherInside otherAdvance) := by
  rw [loopRounds, loopRounds]
  apply (agree_fallThrough_moveTo head head).bind
  intro _
  apply conditions.bind
  intro value
  apply (agree_close_moveTo _ _).bind
  intro _
  apply (agree_inLoop _ (agree_inBlock performs)).bind
  intro _
  apply (agree_fallThrough_moveTo step step).bind
  intro _
  apply (agree_inBlock advances).bind
  intro _
  exact agree_fallThrough_moveTo head done

end

/-- Statements that are lowered alike. -/
abbrev AgreedBody (related : Ir.FunctionId → Ir.FunctionId → Prop) (count : Nat) (first second : Context)
    (statements : List Statement) : Prop :=
  Step.Agree (State.Alike related count) (Statement.lowerEach first statements)
    (Statement.lowerEach second statements)

theorem agree_conditional {condition : Expression} {body : List Statement}
    (conditions : Step.Agree (State.Alike related count) (condition.lowerToCondition first)
      (condition.lowerToCondition second))
    (performs : AgreedBody related count first second body) :
    Step.Agree (State.Alike related count) ((Statement.conditional condition body).lower first)
      ((Statement.conditional condition body).lower second) := by
  rw [Statement.lower, Statement.lower]
  apply conditions.bind
  intro value
  apply (agree_newBlock "if.then").bind
  intro onTrue
  apply (agree_newBlock "if.end").bind
  intro done
  apply (agree_close_moveTo _ _).bind
  intro _
  apply (agree_inBlock performs).bind
  intro _
  exact agree_fallThrough_moveTo done done

theorem agree_switch {scrutinee : Expression} {cases : List Case}
    (scrutinees : Step.Agree (State.Alike related count) (scrutinee.lower first)
      (scrutinee.lower second))
    (performs : ∀ done blocks, Step.Agree (State.Alike related count)
      (Case.lowerEach first done cases blocks) (Case.lowerEach second done cases blocks)) :
    Step.Agree (State.Alike related count) ((Statement.switch scrutinee cases).lower first)
      ((Statement.switch scrutinee cases).lower second) := by
  rw [Statement.lower, Statement.lower]
  apply scrutinees.bind
  intro value
  apply (agree_newBlock "switch.end").bind
  intro done
  apply (agree_newArms value cases).bind
  intro blocks
  apply (agree_close _).bind
  intro _
  apply (performs done blocks.arms).bind
  intro _
  exact agree_moveTo done

theorem agree_loop {init : List Statement} {condition : Expression} {step body : List Statement}
    (begins : AgreedBody related count first second init)
    (conditions : Step.Agree (State.Alike related count) (condition.lowerToCondition first)
      (condition.lowerToCondition second))
    (advances : AgreedBody related count first second step)
    (performs : AgreedBody related count first second body) :
    Step.Agree (State.Alike related count) ((Statement.loop init condition step body).lower first)
      ((Statement.loop init condition step body).lower second) := by
  rw [Statement.lower_loop, Statement.lower_loop]
  apply (agree_newBlock "for.init").bind
  intro initBlock
  apply (agree_close_moveTo (.jump initBlock) initBlock).bind
  intro _
  apply agree_inBlock
  apply begins.bind
  intro _
  rw [withLoopBlocks, withLoopBlocks]
  apply (agree_newBlock "for.cond").bind
  intro head
  apply (agree_newBlock "for.body").bind
  intro bodyBlock
  apply (agree_newBlock "for.post").bind
  intro stepBlock
  apply (agree_newBlock "for.exit").bind
  intro done
  exact agree_rounds head bodyBlock stepBlock done conditions performs advances

mutual

/-- A statement that calls given names only is lowered alike. -/
theorem agree_statement (congruence : Congruent related first second called) :
    (statement : Statement) → (∀ name ∈ statement.calls, called name) →
    Step.Agree (State.Alike related count) (statement.lower first) (statement.lower second)
  | .block body, calls => by
      rw [Statement.calls] at calls
      rw [Statement.lower, Statement.lower]
      exact agree_inBlock (agree_statements congruence body calls)
  | .declaration declared none, _ => by
      rw [Statement.lower, Statement.lower]
      apply (agree_declareAll congruence.types declared).bind
      intro targets
      exact .pure ()
  | .declaration declared (some value), calls => by
      rw [Statement.calls] at calls
      rw [Statement.lower, Statement.lower]
      apply (agree_declareAll congruence.types declared).bind
      intro targets
      exact congruence.assign_agree targets value (fun _ _ => trivial) calls
  | .assignment names value, calls => by
      rw [Statement.calls] at calls
      rw [Statement.lower, Statement.lower]
      apply (agree_lookups names).bind
      intro targets
      exact congruence.assign_agree targets value (fun _ _ => trivial) calls
  | .expression expression, calls => by
      rw [Statement.calls] at calls
      rw [Statement.lower, Statement.lower]
      exact congruence.perform expression (fun _ _ => trivial) calls
  | .conditional condition body, calls => by
      rw [Statement.calls, List.forall_mem_append] at calls
      exact agree_conditional (congruence.condition condition (fun _ _ => trivial) calls.1)
        (agree_statements congruence body calls.2)
  | .switch scrutinee cases, calls => by
      rw [Statement.calls, List.forall_mem_append] at calls
      exact agree_switch (congruence.expression scrutinee (fun _ _ => trivial) calls.1)
        fun done blocks => agree_cases congruence done cases blocks calls.2
  | .loop init condition step body, calls => by
      rw [Statement.calls, List.forall_mem_append, List.forall_mem_append,
        List.forall_mem_append] at calls
      obtain ⟨⟨⟨initCalls, conditionCalls⟩, bodyCalls⟩, stepCalls⟩ := calls
      exact agree_loop (agree_statements congruence init initCalls)
        (congruence.condition condition (fun _ _ => trivial) conditionCalls)
        (agree_statements congruence step stepCalls) (agree_statements congruence body bodyCalls)
  | .breakLoop, _ => by
      rw [Statement.lower, Statement.lower]
      exact agree_leaveIteration .breakLoop
  | .continueLoop, _ => by
      rw [Statement.lower, Statement.lower]
      exact agree_leaveIteration .continueLoop
  | .definition name _ _ _, _ => by
      rw [Statement.lower, Statement.lower]
      exact .throw _
  | .label _, _ => by
      rw [Statement.lower, Statement.lower]
      exact .throw _
  | .stackAssignment _, _ => by
      rw [Statement.lower, Statement.lower]
      exact .throw _

theorem agree_statements (congruence : Congruent related first second called) :
    (statements : List Statement) → (∀ name ∈ Statement.callsOfEach statements, called name) →
    Step.Agree (State.Alike related count) (Statement.lowerEach first statements)
      (Statement.lowerEach second statements)
  | [], _ => by
      rw [Statement.lowerEach, Statement.lowerEach]
      exact .pure ()
  | statement :: rest, calls => by
      rw [Statement.callsOfEach, List.forall_mem_append] at calls
      rw [Statement.lowerEach, Statement.lowerEach]
      apply agree_openBlock.bind
      intro _
      apply (agree_statement congruence statement calls.1).bind
      intro _
      exact agree_statements congruence rest calls.2

theorem agree_cases (congruence : Congruent related first second called) (done : Ir.BlockId) :
    (cases : List Case) → (blocks : List Ir.BlockId) →
    (∀ name ∈ Case.callsOfEach cases, called name) →
    Step.Agree (State.Alike related count) (Case.lowerEach first done cases blocks)
      (Case.lowerEach second done cases blocks)
  | ⟨_, body⟩ :: cases, block :: blocks, calls => by
      rw [Case.callsOfEach, List.forall_mem_append] at calls
      rw [Case.lowerEach, Case.lowerEach]
      apply (agree_moveTo block).bind
      intro _
      apply (agree_inBlock (agree_statements congruence body calls.1)).bind
      intro _
      apply (agree_fallThrough done).bind
      intro _
      exact agree_cases congruence done cases blocks calls.2
  | [], _, _ => by
      rw [Case.lowerEach, Case.lowerEach]
      · exact .pure ()
      · rintro _ _ _ _ _ ⟨⟩
      · rintro _ _ _ _ _ ⟨⟩
  | _ :: _, [], _ => by
      rw [Case.lowerEach, Case.lowerEach]
      · exact .pure ()
      · rintro _ _ _ _ _ _ ⟨⟩
      · rintro _ _ _ _ _ _ ⟨⟩

end

/-! ## Parameters and return variables -/

theorem agree_bindParameters (congruence : Congruent related first second called)
    (names : List TypedName) (values : List Ir.Value) :
    Step.Agree (State.Alike related count) (bindParameters names values)
      (bindParameters names values) := by
  induction names generalizing values with
  | nil => exact .pure ()
  | cons head names ih =>
      cases values with
      | nil => exact .pure ()
      | cons value values =>
          apply (agree_declare head.name value.type).bind
          intro slot
          apply (congruence.stores (.ofLocal slot) value).bind
          intro _
          exact ih values

theorem agree_bindReturns (congruence : Congruent related first second called)
    (names : List TypedName) (types : List Ir.ValueType) :
    Step.Agree (State.Alike related count) (bindReturns names types) (bindReturns names types) := by
  induction names generalizing types with
  | nil => exact .pure []
  | cons head names ih =>
      cases types with
      | nil => exact .pure []
      | cons type types =>
          apply (agree_declare head.name type).bind
          intro slot
          apply (congruence.consts type 0).bind
          intro zero
          apply (congruence.stores (.ofLocal slot) zero).bind
          intro _
          apply (ih types).bind
          intro bindings
          exact .pure _

theorem agree_spillReturns (congruence : Congruent related first second called)
    (sources : List Binding) (index : Nat) (enough : index + sources.length ≤ count) :
    Step.Agree (State.Alike related count) (spillReturns index sources)
      (spillReturns index sources) := by
  induction sources generalizing index with
  | nil => exact .pure ()
  | cons source rest ih =>
      rw [List.length_cons] at enough
      apply (congruence.loads _ _).bind
      intro value
      apply (congruence.spills (by omega)).bind
      intro slot
      apply (congruence.stores _ _).bind
      intro _
      exact ih (index + 1) (by omega)

theorem agree_returnValues (congruence : Congruent related first second called)
    (returns : List Binding) :
    Step.Agree (State.Alike related count) (returnValues returns) (returnValues returns) := by
  cases returns with
  | nil => exact agree_close _
  | cons source others =>
      apply congruence.reserve_bind
      apply (congruence.loads _ _).bind
      intro value
      apply (agree_spillReturns congruence others 0 (by omega)).bind
      intro _
      exact agree_close _

end YulLowering.Lowering
