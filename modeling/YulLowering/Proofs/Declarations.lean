import YulLowering.Proofs.Agreement
import YulLowering.Proofs.Bodies
import YulLowering.Proofs.Outcomes

/-!
# What an initialiser sees

A declaration makes its variables visible before its initialiser is lowered. An initialiser that mentions
none of their names cannot tell: it is lowered as if the variables were declared behind it. An initialiser
that does mention one of them means the new variable, which has no value yet, and never an earlier variable
of the same name.
-/

namespace YulLowering.Lowering

variable {context : Context}

/-- Take a step where other declarations are visible; those that it makes itself are forgotten. -/
def Step.inScope {α : Type} (scope : Scope) (step : Step α) : Step α :=
  fun state =>
    let (outcome, later) := step { state with scope := scope }
    (outcome, { later with scope := state.scope })

/-- Declare variables and give them the value of an expression in which they are not visible. -/
def declareApart (context : Context) (declared : List TypedName) (value : Expression) :
    Step Unit := do
  let scope ← Step.inspect State.scope
  let targets ← declareAll context declared
  Step.inScope scope (assign context targets value)

/-! ## The variables of a declaration -/

/-- Declared variables become visible in order, each with a new slot. -/
theorem declareAll_yields (declared : List TypedName) (state : State) :
    Step.Yields (declareAll context declared) state fun targets later =>
      Reserved (.resting state) targets (.resting later) ∧
        targets.map Binding.name = declared.map TypedName.name := by
  induction declared generalizing state with
  | nil => exact .pure ⟨.nil _, rfl⟩
  | cons head rest ih =>
      obtain ⟨name, typeName⟩ := head
      rw [declareAll]
      apply Step.Yields.ofExcept_bind
      intro type _
      apply Step.Yields.declare_bind
      apply Step.Yields.bind (ih _)
      rintro targets later ⟨reserved, names⟩
      exact .pure ⟨.cons rfl rfl reserved, congrArg (name :: ·) names⟩

/-- A name means the last new variable that has it, or else what it meant before. -/
theorem lookup_of_reserved {state later : State} {targets : List Binding}
    (reserved : Reserved (.resting state) targets (.resting later)) (name : String) :
    later.scope.lookup name =
      (targets.reverse.find? fun target => target.name == name).or (state.scope.lookup name) := by
  have bindings : later.scope.bindings = state.scope.bindings ++ targets := reserved.scope
  rw [Scope.lookup, bindings, List.reverse_append, List.find?_append]
  rfl

/-- A name that is not declared keeps its meaning. -/
theorem lookup_of_reserved_of_not_mem {state later : State} {targets : List Binding}
    (reserved : Reserved (.resting state) targets (.resting later)) {name : String}
    (absent : name ∉ targets.map Binding.name) :
    later.scope.lookup name = state.scope.lookup name := by
  have hidden : (targets.reverse.find? fun target => target.name == name) = none := by
    rw [List.find?_eq_none]
    intro target isTarget
    rw [beq_iff_eq]
    rintro rfl
    exact absent (List.mem_map_of_mem (List.mem_reverse.mp isTarget))
  rw [lookup_of_reserved reserved, hidden, Option.none_or]

/-- A name that is declared means a new variable. -/
theorem lookup_of_reserved_of_mem {state later : State} {targets : List Binding}
    (reserved : Reserved (.resting state) targets (.resting later)) {name : String}
    (isDeclared : name ∈ targets.map Binding.name) :
    ∃ target ∈ targets, later.scope.lookup name = some target := by
  obtain ⟨declared, isTarget, rfl⟩ := List.mem_map.mp isDeclared
  rw [lookup_of_reserved reserved]
  cases found : targets.reverse.find? fun target => target.name == declared.name with
  | none =>
      rw [List.find?_eq_none] at found
      exact absurd (beq_self_eq_true _) (found declared (List.mem_reverse.mpr isTarget))
  | some target =>
      exact ⟨target, List.mem_reverse.mp (List.mem_of_find?_eq_some found), rfl⟩

/-- New variables have slots that have not been there before. -/
theorem le_slot_of_reserved {state later : State} {targets : List Binding} {target : Binding}
    (reserved : Reserved (.resting state) targets (.resting later)) (member : target ∈ targets) :
    state.draft.function.locals.length ≤ target.slot.index := by
  have isSlot := List.mem_map_of_mem (f := fun binding : Binding => binding.slot.index) member
  rw [reserved.slots] at isSlot
  exact (List.mem_range'_1.mp isSlot).1

/-! ## Initialisers that do not mention the variables -/

/-- Two states that differ in the visible declarations only. -/
structure State.Rescoped (scope other : Scope) (count : Nat) (state later : State) : Prop where
  scope : state.scope = scope
  later_eq : later = { state with scope := other }
  enough : count ≤ state.spills.slots.length

/-- Expressions are lowered alike where the variables that they mention mean the same. -/
theorem congruence_rescoped {scope other : Scope} {mentioned : String → Prop}
    (same : ∀ name, mentioned name → scope.lookup name = other.lookup name) :
    Congruence context context mentioned (fun _ => True) (State.Rescoped scope other) where
  types := rfl
  resolved := by
    intro name _
    cases context.resolveCall name with
    | error fault => exact .fault fault
    | ok target =>
        cases target with
        | builtin builtin => exact .builtin builtin
        | function signature =>
            refine .function rfl ?_
            rintro count state _ dest arguments ⟨inScope, rfl, enough⟩
            exact ⟨inScope, rfl, enough⟩
  lookup := by
    rintro count state _ name ⟨rfl, rfl, -⟩ isMentioned
    exact same name isMentioned
  supply := by
    rintro count state _ ⟨-, rfl, -⟩
    rfl
  write := by
    rintro count state _ instruction ⟨inScope, rfl, enough⟩ _
    exact ⟨inScope, rfl, enough⟩
  imported := by
    rintro count state _ external ⟨inScope, rfl, enough⟩
    exact ⟨inScope, rfl, enough⟩
  weaken := by
    rintro count fewer state _ ⟨inScope, rfl, enough⟩ isFewer
    exact ⟨inScope, rfl, Nat.le_trans isFewer enough⟩
  reserved := by
    rintro count state _ more ⟨inScope, rfl, enough⟩
    have size := SpillSlots.size_reserve state.spills state.module more
    refine ⟨inScope, rfl, ?_⟩
    show max count more ≤ (state.spills.reserve state.module more).1.size
    rw [size, SpillSlots.size]
    omega
  spill := by
    rintro count state _ index ⟨-, rfl, enough⟩ bound
    have present : index < state.spills.slots.length := Nat.lt_of_lt_of_le bound enough
    exact ⟨_, List.getElem?_eq_getElem present, List.getElem?_eq_getElem present⟩

/-- Only the variables that an expression mentions have to be visible where it is assigned. -/
theorem after_inScope_assign {scope : Scope} {value : Expression} {state : State}
    (same : ∀ name, value.mentions name = true → scope.lookup name = state.scope.lookup name)
    (targets : List Binding) :
    (Step.inScope scope (assign context targets value)).after state =
      (assign context targets value).after state := by
  have agree : Step.Agree (State.Rescoped scope state.scope 0) (assign context targets value)
      (assign context targets value) :=
    (congruence_rescoped same).assign_agree targets value (fun _ => id) fun _ _ => trivial
  have rescoped : State.Rescoped scope state.scope 0 { state with scope := scope } state :=
    ⟨rfl, rfl, Nat.zero_le _⟩
  obtain ⟨outcome, ends⟩ := agree.holds rescoped
  exact Prod.ext outcome ends.later_eq.symm

theorem after_declaration_of_apart {declared : List TypedName} {value : Expression}
    (apart : ∀ target ∈ declared, value.mentions target.name = false) (state : State) :
    ((Statement.declaration declared (some value)).lower context).after state =
      (declareApart context declared value).after state := by
  rw [Statement.lower, declareApart, Step.after_bind, Step.after_bind, Step.after_inspect]
  dsimp only
  rw [Step.after_bind]
  cases taken : (declareAll context declared).after state with
  | mk outcome later =>
      cases outcome with
      | error fault => rfl
      | ok targets =>
          obtain ⟨reserved, names⟩ := (declareAll_yields declared state).holds targets later taken
          refine (after_inScope_assign ?_ targets).symm
          intro name isMentioned
          symm
          apply lookup_of_reserved_of_not_mem reserved
          rw [names]
          intro isDeclared
          obtain ⟨target, isTarget, rfl⟩ := List.mem_map.mp isDeclared
          rw [apart target isTarget] at isMentioned
          cases isMentioned

end YulLowering.Lowering

namespace YulLowering

open Lowering

/-- An initialiser that mentions none of the names that its declaration introduces is lowered against the
bindings visible before the declaration. In any case it is lowered where the new variables are visible: a
declared name means a new variable there, with a slot that has not been there before, and every other name
means what it meant. -/
theorem Statement.after_lower_declaration (context : Context) (declared : List TypedName)
    (value : Expression) (state : State) :
    ((∀ target ∈ declared, value.mentions target.name = false) →
      ((Statement.declaration declared (some value)).lower context).after state =
        (declareApart context declared value).after state) ∧
    ∀ targets later, (declareAll context declared).after state = (.ok targets, later) →
      ((Statement.declaration declared (some value)).lower context).after state =
          (assign context targets value).after later ∧
        (∀ name ∈ declared.map TypedName.name, ∃ target ∈ targets,
          later.scope.lookup name = some target ∧
            state.draft.function.locals.length ≤ target.slot.index) ∧
        ∀ name ∉ declared.map TypedName.name,
          later.scope.lookup name = state.scope.lookup name := by
  refine ⟨fun apart => after_declaration_of_apart apart state, ?_⟩
  intro targets later taken
  obtain ⟨reserved, names⟩ := (declareAll_yields declared state).holds targets later taken
  rw [← names]
  refine ⟨?lowered, ?declared, fun name absent => lookup_of_reserved_of_not_mem reserved absent⟩
  case lowered =>
    rw [Statement.lower, Step.after_bind, taken]
  case declared =>
    intro name isDeclared
    obtain ⟨target, isTarget, found⟩ := lookup_of_reserved_of_mem reserved isDeclared
    exact ⟨target, isTarget, found, le_slot_of_reserved reserved isTarget⟩

/-- A program with a function `pair` of two results, and without builtins. -/
def pairContext : Context :=
  ⟨.empty .strict, .standard, ⟨[⟨"pair", ⟨0⟩, [.int 256], [.int 256, .int 256]⟩]⟩⟩

/-- The state in which the body of a function with a parameter `z` starts. -/
def pairState : State :=
  (Progress.begin ⟨.empty, .empty "m"⟩ "f" ⟨"f", ⟨1⟩, [.int 256], []⟩).declared "z" (.int 256)

theorem Statement.after_lower_declaration_pair :
    (∀ target ∈ [(⟨"x", ""⟩ : TypedName), ⟨"y", ""⟩],
      (Expression.call "pair" [.identifier "z"]).mentions target.name = false) ∧
      ((Statement.declaration [⟨"x", ""⟩, ⟨"y", ""⟩]
          (some (.call "pair" [.identifier "z"]))).lower pairContext).after pairState =
        (declareApart pairContext [⟨"x", ""⟩, ⟨"y", ""⟩] (.call "pair" [.identifier "z"])).after
          pairState ∧
      ∃ targets later,
        (declareAll pairContext [⟨"z", ""⟩, ⟨"y", ""⟩]).after pairState = (.ok targets, later) ∧
        ((Statement.declaration [⟨"z", ""⟩, ⟨"y", ""⟩]
            (some (.call "pair" [.identifier "z"]))).lower pairContext).after pairState =
          (assign pairContext targets (.call "pair" [.identifier "z"])).after later ∧
        ∃ target ∈ targets, later.scope.lookup "z" = some target ∧
          pairState.draft.function.locals.length ≤ target.slot.index := by
  have apart : ∀ target ∈ [(⟨"x", ""⟩ : TypedName), ⟨"y", ""⟩],
      (Expression.call "pair" [.identifier "z"]).mentions target.name = false := by decide
  have isOk : ((declareAll pairContext [⟨"z", ""⟩, ⟨"y", ""⟩]).after pairState).1.isOk = true := by
    decide +kernel
  refine ⟨apart, (Statement.after_lower_declaration pairContext _ _ pairState).1 apart, ?_⟩
  obtain ⟨targets, succeeds⟩ := exists_of_isOk isOk
  have taken : (declareAll pairContext [⟨"z", ""⟩, ⟨"y", ""⟩]).after pairState =
      (.ok targets, ((declareAll pairContext [⟨"z", ""⟩, ⟨"y", ""⟩]).after pairState).2) :=
    Prod.ext succeeds rfl
  obtain ⟨lowered, declared, -⟩ :=
    (Statement.after_lower_declaration pairContext [⟨"z", ""⟩, ⟨"y", ""⟩]
      (.call "pair" [.identifier "z"]) pairState).2 targets _ taken
  exact ⟨targets, _, taken, lowered, declared "z" List.mem_cons_self⟩

/-- A variable that is initialised with itself. -/
def selfInitialised : Block :=
  [.definition "f" [] [] [.declaration [⟨"x", ""⟩] (some (.identifier "x"))]]

/-- There is no variable before the declaration, and yet the initialiser is accepted: it reads the new
variable. -/
theorem Statement.not_declareApart_selfInitialised :
    (selfInitialised.toModule (.empty .strict) .standard "m").isOk = true ∧
      ((Statement.declaration [⟨"x", ""⟩] (some (.identifier "x"))).lower pairContext).after
          pairState ≠
        (declareApart pairContext [⟨"x", ""⟩] (.identifier "x")).after pairState ∧
      ((declareApart pairContext [⟨"x", ""⟩] (.identifier "x")).after pairState).1 =
        .error (.undeclaredName "x") := by
  have unresolved : ((declareApart pairContext [⟨"x", ""⟩] (.identifier "x")).after pairState).1 =
      .error (.undeclaredName "x") := by decide +kernel
  have accepted : (((Statement.declaration [⟨"x", ""⟩] (some (.identifier "x"))).lower
      pairContext).after pairState).1 = .ok () := by decide +kernel
  refine ⟨by decide +kernel, ?_, unresolved⟩
  intro same
  rw [same, unresolved] at accepted
  cases accepted

end YulLowering
