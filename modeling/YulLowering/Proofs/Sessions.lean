import YulLowering.Proofs.Settings

/-!
# What a session has been used for does not show

A session can be told to lower programs, to hand out its dialect and to drop it, any number of times and in
any order. None of that changes what it answers: a program is lowered as it would be by itself. What does
change is the instance of the dialect. Between two drops it is built at the first demand, and every demand
up to the next drop gets that instance.
-/

namespace YulLowering

namespace Dialect.OnDemand

variable {source : OnDemand} {catalog : Dialect} {count : Nat}

theorem demand_of_held {inst : Instance} (held : source.held = some inst) :
    source.demand = (inst, source) := by
  rw [demand, held]

theorem demand_of_none (none_held : source.held = none) :
    source.demand = (⟨source.builds, source.catalog⟩,
      { source with builds := source.builds + 1, held := some ⟨source.builds, source.catalog⟩ }) := by
  rw [demand, none_held]

/-- What is demanded is held from then on. -/
theorem held_demand (source : OnDemand) : source.demand.2.held = some source.demand.1 := by
  cases held : source.held with
  | some inst => rw [demand_of_held held, held]
  | none => rw [demand_of_none held]

/-- An instance that is held has been built from the catalog, after so many others. -/
structure Holds (source : OnDemand) (catalog : Dialect) (count : Nat) : Prop where
  catalog_eq : source.catalog = catalog
  le_builds : count ≤ source.builds
  held : ∀ inst ∈ source.held, inst.dialect = catalog ∧ count ≤ inst.serial ∧ inst.serial < source.builds

namespace Holds

theorem demand (holds : source.Holds catalog count) : source.demand.2.Holds catalog count := by
  cases held : source.held with
  | some inst =>
      rw [demand_of_held held]
      exact holds
  | none =>
      rw [demand_of_none held]
      refine ⟨holds.catalog_eq, Nat.le_succ_of_le holds.le_builds, ?_⟩
      rintro _ ⟨⟩
      exact ⟨holds.catalog_eq, holds.le_builds, Nat.lt_succ_self _⟩

/-- After a drop whatever is held comes after all that has been built so far. -/
theorem drop (holds : source.Holds catalog count) : source.drop.Holds catalog source.builds :=
  ⟨holds.catalog_eq, Nat.le_refl _, fun _ none_held => by cases none_held⟩

theorem mono {fewer : Nat} (holds : source.Holds catalog count) (le : fewer ≤ count) :
    source.Holds catalog fewer where
  catalog_eq := holds.catalog_eq
  le_builds := Nat.le_trans le holds.le_builds
  held := by
    intro inst isHeld
    obtain ⟨built, after, before⟩ := holds.held inst isHeld
    exact ⟨built, Nat.le_trans le after, before⟩

end Holds

end Dialect.OnDemand

namespace Session

/-- What a session can be told to do. -/
inductive Operation where
  | lower (program : Block)
  | dialect
  | dropDialect

/-- Whether an operation drops the dialect. All others demand it. -/
def Operation.drops : Operation → Bool
  | lower _ => false
  | dialect => false
  | dropDialect => true

/-- The session after one operation. -/
def step (session : Session) : Operation → Session
  | .lower program => (session.lower program).2
  | .dialect => session.dialect.2
  | .dropDialect => session.dropDialect

@[simp] theorem dialects_step_of_drops {session : Session} {operation : Operation}
    (drops : operation.drops = true) : (session.step operation).dialects = session.dialects.drop := by
  cases operation with
  | lower => cases drops
  | dialect => cases drops
  | dropDialect => rfl

@[simp] theorem dialects_step_of_demands {session : Session} {operation : Operation}
    (demands : operation.drops = false) :
    (session.step operation).dialects = session.dialects.demand.2 := by
  cases operation with
  | lower | dialect => rfl
  | dropDialect => cases demands

/-- The session after several operations. -/
def after (session : Session) (operations : List Operation) : Session :=
  operations.foldl step session

theorem after_cons (session : Session) (operation : Operation) (rest : List Operation) :
    session.after (operation :: rest) = (session.step operation).after rest :=
  rfl

theorem after_append_cons (session : Session) (before : List Operation) (operation : Operation)
    (rest : List Operation) :
    session.after (before ++ operation :: rest) = ((session.after before).step operation).after rest := by
  rw [after, List.foldl_append, List.foldl_cons]
  rfl

/-- The parts of a sequence of operations before, between and after its drops of the dialect. -/
def stretches (operations : List Operation) : List (List Operation) :=
  operations.splitOnP Operation.drops

/-- How many stretches there are in which anything is done. -/
def busyStretches (stretches : List (List Operation)) : Nat :=
  stretches.countP fun stretch => !stretch.isEmpty

/-- A session that answers as its settings say, with instances that come after so many others. -/
structure Serves (session : Session) (settings : Settings) (types : Lowering.TypeNames) (count : Nat) :
    Prop where
  settings_eq : session.settings = settings
  types_eq : session.types = types
  holds : session.dialects.Holds settings.dialect count

variable {session : Session} {settings : Settings} {types : Lowering.TypeNames} {count : Nat}

theorem serves_create : Serves ⟨settings, types, .ofCatalog settings.dialect⟩ settings types 0 :=
  ⟨rfl, rfl, rfl, Nat.le_refl _, fun _ none_held => by cases none_held⟩

theorem Serves.dropDialect (serves : session.Serves settings types count) :
    session.dropDialect.Serves settings types session.dialects.builds :=
  ⟨serves.settings_eq, serves.types_eq, serves.holds.drop⟩

/-- An operation does not change how a session answers. -/
theorem Serves.step (serves : session.Serves settings types count) (operation : Operation) :
    (session.step operation).Serves settings types count := by
  cases operation with
  | lower | dialect => exact ⟨serves.settings_eq, serves.types_eq, serves.holds.demand⟩
  | dropDialect =>
      exact ⟨serves.settings_eq, serves.types_eq, serves.holds.drop.mono serves.holds.le_builds⟩

theorem Serves.after (serves : session.Serves settings types count) (operations : List Operation) :
    (session.after operations).Serves settings types count := by
  induction operations generalizing session with
  | nil => exact serves
  | cons operation rest ih => exact ih (serves.step operation)

theorem Serves.demanded (serves : session.Serves settings types count) :
    session.dialect.1.dialect = settings.dialect ∧ count ≤ session.dialect.1.serial ∧
      session.dialect.1.serial < session.dialect.2.dialects.builds :=
  serves.holds.demand.held _ session.dialects.held_demand

/-- A program is lowered as it would be by itself. -/
theorem Serves.lower_eq (serves : session.Serves settings types count) (program : Block) :
    (session.lower program).1 = program.toModule settings.dialect types settings.moduleName := by
  change program.toModule session.dialect.1.dialect session.types session.settings.moduleName = _
  rw [serves.demanded.1, serves.types_eq, serves.settings_eq]

/-! ## How often the dialect is built -/

@[simp] theorem stretches_cons (operation : Operation) (rest : List Operation) :
    stretches (operation :: rest) =
      if operation.drops then [] :: stretches rest
      else (stretches rest).modifyHead (operation :: ·) :=
  List.splitOnP_cons_eq_if_modifyHead operation rest

/-- An operation makes the first stretch a busy one. -/
theorem busyStretches_modifyHead (operation : Operation) (rest : List Operation) :
    busyStretches ((stretches rest).modifyHead (operation :: ·)) =
      busyStretches (stretches rest).tail + 1 := by
  obtain ⟨first, others, isSplit⟩ := List.exists_cons_of_ne_nil (List.splitOnP_ne_nil Operation.drops rest)
  rw [stretches, isSplit]
  exact List.countP_cons_of_pos rfl

/-- The dialect is built once for each stretch in which anything is done. A first stretch that finds an
instance uses that one. -/
theorem builds_after (session : Session) (operations : List Operation) :
    (session.after operations).dialects.builds =
      session.dialects.builds + busyStretches
        (if session.dialects.isBuilt then (stretches operations).tail else stretches operations) := by
  induction operations generalizing session with
  | nil => cases session.dialects.isBuilt <;> rfl
  | cons operation rest ih =>
      rw [after_cons, ih, stretches_cons]
      cases drops : operation.drops with
      | true =>
          rw [dialects_step_of_drops drops]
          cases session.dialects.isBuilt <;> rfl
      | false =>
          rw [dialects_step_of_demands drops, if_neg Bool.false_ne_true, Dialect.OnDemand.isBuilt,
            Dialect.OnDemand.held_demand, Dialect.OnDemand.isBuilt]
          cases held : session.dialects.held with
          | some inst =>
              rw [Dialect.OnDemand.demand_of_held held, Option.isSome_some, if_pos rfl, if_pos rfl,
                List.tail_modifyHead]
          | none =>
              rw [Dialect.OnDemand.demand_of_none held, Option.isSome_none, if_neg Bool.false_ne_true,
                busyStretches_modifyHead]
              exact Nat.succ_add_eq_add_succ _ _

/-! ## Which instance is in use -/

/-- An instance stays in use until it is dropped. -/
theorem dialect_after_of_held {inst : Dialect.Instance} (held : session.dialects.held = some inst)
    {operations : List Operation} (kept : .dropDialect ∉ operations) :
    (session.after operations).dialect.1 = inst := by
  induction operations generalizing session with
  | nil => exact congrArg Prod.fst (Dialect.OnDemand.demand_of_held held)
  | cons operation rest ih =>
      rw [List.mem_cons, not_or] at kept
      have demands : operation.drops = false := by
        cases operation with
        | lower | dialect => rfl
        | dropDialect => exact absurd rfl kept.1
      apply ih _ kept.2
      rw [dialects_step_of_demands demands, Dialect.OnDemand.demand_of_held held, held]

/-- An instance that has been dropped is never used again. -/
theorem Serves.dialect_after_ne (serves : session.Serves settings types count) {inst : Dialect.Instance}
    (earlier : inst.serial < session.dialects.builds) {operations : List Operation}
    (dropped : .dropDialect ∈ operations) : (session.after operations).dialect.1 ≠ inst := by
  obtain ⟨between, later, rfl⟩ := List.append_of_mem dropped
  have more : session.dialects.builds ≤ (session.after between).dialects.builds := by
    rw [builds_after]
    exact Nat.le_add_right _ _
  have renewed := (((serves.after between).dropDialect).after later).demanded.2.1
  rintro rfl
  rw [after_append_cons] at earlier
  exact Nat.lt_irrefl _ (Nat.lt_of_lt_of_le earlier (Nat.le_trans more renewed))

theorem Serves.shares (serves : session.Serves settings types count) {operation : Operation}
    (demands : operation.drops = false) (between : List Operation) :
    ((session.step operation).after between).dialect.1 = session.dialect.1 ↔
      .dropDialect ∉ between := by
  have used : (session.step operation).dialects = session.dialects.demand.2 :=
    dialects_step_of_demands demands
  constructor
  · intro same dropped
    refine (serves.step operation).dialect_after_ne ?_ dropped same
    rw [used]
    exact serves.demanded.2.2
  · apply dialect_after_of_held
    rw [used]
    exact session.dialects.held_demand

/-! ## Whole histories -/

/-- What a session does, whatever it has been told to do before. -/
structure Answers (session : Session) (settings : Settings) (types : Lowering.TypeNames) : Prop where
  /-- A program is lowered as it would be by itself. -/
  lower : ∀ (before : List Operation) (program : Block),
    ((session.after before).lower program).1 =
      program.toModule settings.dialect types settings.moduleName
  dialect : ∀ before : List Operation, (session.after before).dialect.1.dialect = settings.dialect
  /-- The dialect is built once for each stretch between drops in which anything is done. -/
  builds : ∀ operations : List Operation,
    (session.after operations).dialects.builds = busyStretches (stretches operations)
  /-- Two operations use one instance exactly if there is no drop between them. -/
  shares : ∀ (before : List Operation) (first : Operation) (between : List Operation),
    first.drops = false →
      ((session.after (before ++ first :: between)).dialect.1 = (session.after before).dialect.1 ↔
        .dropDialect ∉ between)

theorem answers_create : Answers ⟨settings, types, .ofCatalog settings.dialect⟩ settings types where
  lower before := (serves_create.after before).lower_eq
  dialect before := (serves_create.after before).demanded.1
  builds operations := (builds_after _ operations).trans (Nat.zero_add _)
  shares := by
    intro before first between demands
    rw [after_append_cons]
    exact (serves_create.after before).shares demands between

/-- Nothing that a session has been used for shows in what it answers, under any settings that can be used.
Where nothing is chosen, programs are lowered as by themselves with the dialect of the target. -/
theorem answers_whatever_before :
    (∀ settings : Settings, settings.checked = .ok settings →
      ∃ session types, create settings = .ok session ∧ settings.types = .ok types ∧
        session.Answers settings types) ∧
      create .standard = .ok standard ∧
      ∀ (before : List Operation) (program : Block),
        ((standard.after before).lower program).1 = program.toStandardModule Dialect.Ethereum.dialect := by
  refine ⟨fun settings checked => ?_, rfl, fun before => ?_⟩
  · obtain ⟨types, chosen, created⟩ := Settings.exists_create checked
    exact ⟨_, types, created, chosen, answers_create⟩
  · have answers : Answers standard .standard .standard := answers_create
    exact answers.lower before

/-- Settings with a narrow default type and one builtin beyond those of the target. -/
def clockSettings : Settings :=
  ⟨"clocks", "u64", true, [⟨"clock", [], ["u32"], false, false⟩]⟩

/-- A lowering that fails, a demand, two drops in a row and a lowering that succeeds. -/
def renewal : List Operation :=
  [.lower [.label "start"], .dialect, .dropDialect, .dropDialect, .lower []]

theorem answers_whatever_before_renewal :
    clockSettings.checked = .ok clockSettings ∧
      ∃ session, create clockSettings = .ok session ∧
        (session.after renewal).dialects.builds = 2 ∧
        (session.after renewal).dialect.1.dialect = clockSettings.dialect ∧
        ((session.after renewal).lower [.label "start"]).1 =
          .error ⟨none, .unsupported (.topLevel .label)⟩ := by
  have checked : clockSettings.checked = .ok clockSettings :=
    Settings.checked_ok_iff.mpr (by decide +kernel)
  obtain ⟨session, types, created, -, answers⟩ := answers_whatever_before.1 clockSettings checked
  exact ⟨checked, session, created, (answers.builds renewal).trans rfl, answers.dialect renewal,
    (answers.lower renewal _).trans rfl⟩

end Session

end YulLowering
