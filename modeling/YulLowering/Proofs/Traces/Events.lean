import YulLowering.Proofs.Calls

/-!
# What a source program asks for

A program is read as a list of events in the order in which lowering comes across them: blocks are entered
and left, variables are declared, calls are made with their arguments, and variables are given values. A call
comes after the calls in its arguments, and the step of a loop after its body.
-/

namespace YulLowering

/-- A call as it is written. -/
structure Call where
  callee : String
  arguments : List Expression

/-- The variables that values are for. -/
inductive Targets where
  /-- As many of those that have been declared last. -/
  | latest (count : Nat)
  | named (names : List String)

/-- How many variables there are values for. -/
def Targets.count : Targets → Nat
  | latest count => count
  | named names => names.length

/-- One thing that a program asks for. -/
inductive Event where
  | entered
  | left
  | declared (name : String)
  | called (call : Call)
  | received (targets : Targets) (value : Expression)

namespace Event

/-- The variable that is declared. -/
def name? : Event → Option String
  | declared name => some name
  | entered | left | called _ | received _ _ => none

/-- The call that is made. -/
def call? : Event → Option Call
  | called call => some call
  | entered | left | declared _ | received _ _ => none

/-- The number of variables that are given values. -/
def reception? : Event → Option Reception
  | received targets value => some ⟨targets.count, value⟩
  | entered | left | declared _ | called _ => none

/-- Events in a block of their own. -/
def inBlock (events : List Event) : List Event :=
  entered :: (events ++ [left])

/-- The variables that are declared in several events. -/
def names (events : List Event) : List String :=
  events.filterMap name?

/-- The calls in several events. -/
def calls (events : List Event) : List Call :=
  events.filterMap call?

/-- What is given values to in several events. -/
def receptions (events : List Event) : List Reception :=
  events.filterMap reception?

@[simp] theorem names_append (events more : List Event) :
    names (events ++ more) = names events ++ names more :=
  List.filterMap_append

@[simp] theorem calls_append (events more : List Event) :
    calls (events ++ more) = calls events ++ calls more :=
  List.filterMap_append

@[simp] theorem receptions_append (events more : List Event) :
    receptions (events ++ more) = receptions events ++ receptions more :=
  List.filterMap_append

@[simp] theorem calls_called (call : Call) : calls [called call] = [call] := rfl

@[simp] theorem calls_received (targets : Targets) (value : Expression) :
    calls [received targets value] = [] := rfl

@[simp] theorem receptions_called (call : Call) : receptions [called call] = [] := rfl

@[simp] theorem receptions_received (targets : Targets) (value : Expression) :
    receptions [received targets value] = [⟨targets.count, value⟩] := rfl

@[simp] theorem names_inBlock (events : List Event) : names (inBlock events) = names events :=
  (names_append events [left]).trans (List.append_nil _)

@[simp] theorem calls_inBlock (events : List Event) : calls (inBlock events) = calls events :=
  (calls_append events [left]).trans (List.append_nil _)

@[simp] theorem receptions_inBlock (events : List Event) :
    receptions (inBlock events) = receptions events :=
  (receptions_append events [left]).trans (List.append_nil _)

end Event

/-! ## Reading a program -/

mutual

/-- The events of an expression. -/
def Expression.events : Expression → List Event
  | .identifier _ => []
  | .literal _ => []
  | .call callee arguments => Expression.eventsOfEach arguments ++ [.called ⟨callee, arguments⟩]
  | .instructionCall _ arguments => Expression.eventsOfEach arguments
  | .instruction _ => []

/-- The events of several expressions. -/
def Expression.eventsOfEach : List Expression → List Event
  | [] => []
  | argument :: rest => argument.events ++ Expression.eventsOfEach rest

end

/-- The events of declarations. -/
def TypedName.events (declared : List TypedName) : List Event :=
  declared.map fun target => .declared target.name

mutual

/-- The events of a statement. -/
def Statement.events : Statement → List Event
  | .block body => Event.inBlock (Statement.eventsOfEach body)
  | .declaration declared none => TypedName.events declared
  | .declaration declared (some value) =>
    TypedName.events declared ++ (value.events ++ [.received (.latest declared.length) value])
  | .assignment targets value => value.events ++ [.received (.named targets) value]
  | .expression expression => expression.events
  | .conditional condition body => condition.events ++ Event.inBlock (Statement.eventsOfEach body)
  | .switch scrutinee cases => scrutinee.events ++ Case.eventsOfEach cases
  | .loop init condition step body =>
    Event.inBlock (Statement.eventsOfEach init ++
      (condition.events ++ Event.inBlock (Statement.eventsOfEach body) ++
        Event.inBlock (Statement.eventsOfEach step)))
  | .breakLoop => []
  | .continueLoop => []
  | .definition _ _ _ body => Statement.eventsOfEach body
  | .label _ => []
  | .stackAssignment _ => []

/-- The events of several statements. -/
def Statement.eventsOfEach : List Statement → List Event
  | [] => []
  | statement :: rest => statement.events ++ Statement.eventsOfEach rest

/-- The events of the arms of a switch. -/
def Case.eventsOfEach : List Case → List Event
  | [] => []
  | ⟨_, body⟩ :: rest => Event.inBlock (Statement.eventsOfEach body) ++ Case.eventsOfEach rest

end

/-- The events of a function. -/
def Definition.events (definition : Definition) : List Event :=
  Statement.eventsOfEach definition.body

/-- The variables of a function: its parameters, its return variables and those that its body declares. -/
def Definition.variables (definition : Definition) : List String :=
  definition.parameters.map TypedName.name ++ definition.returns.map TypedName.name ++
    Event.names definition.events

/-! ## The parts of what has been read -/

namespace Event

@[simp] theorem calls_typedNames (declared : List TypedName) :
    calls (TypedName.events declared) = [] := by
  simp [calls, TypedName.events, List.filterMap_map, Function.comp_def, call?]

@[simp] theorem receptions_typedNames (declared : List TypedName) :
    receptions (TypedName.events declared) = [] := by
  simp [receptions, TypedName.events, List.filterMap_map, Function.comp_def, reception?]

@[simp] theorem names_typedNames (declared : List TypedName) :
    names (TypedName.events declared) = declared.map TypedName.name := by
  simp [names, TypedName.events, List.filterMap_map, Function.comp_def, name?]

end Event

mutual

/-- The calls of an expression are made by the names that it calls. -/
theorem Expression.map_callee_events : (expression : Expression) →
    (Event.calls expression.events).map Call.callee = expression.calls
  | .identifier _ => rfl
  | .literal _ => rfl
  | .call callee arguments => by
      simp [Expression.events, Expression.calls, Expression.map_callee_eventsOfEach arguments]
  | .instructionCall _ arguments => by
      simp [Expression.events, Expression.calls, Expression.map_callee_eventsOfEach arguments]
  | .instruction _ => rfl

theorem Expression.map_callee_eventsOfEach : (arguments : List Expression) →
    (Event.calls (Expression.eventsOfEach arguments)).map Call.callee =
      Expression.callsOfEach arguments
  | [] => rfl
  | argument :: rest => by
      simp [Expression.eventsOfEach, Expression.callsOfEach, argument.map_callee_events,
        Expression.map_callee_eventsOfEach rest]

end

mutual

/-- An expression gives no values to variables. -/
theorem Expression.receptions_events : (expression : Expression) →
    Event.receptions expression.events = []
  | .identifier _ => rfl
  | .literal _ => rfl
  | .call callee arguments => by
      simp [Expression.events, Expression.receptions_eventsOfEach arguments]
  | .instructionCall _ arguments => by
      simp [Expression.events, Expression.receptions_eventsOfEach arguments]
  | .instruction _ => rfl

theorem Expression.receptions_eventsOfEach : (arguments : List Expression) →
    Event.receptions (Expression.eventsOfEach arguments) = []
  | [] => rfl
  | argument :: rest => by
      simp [Expression.eventsOfEach, argument.receptions_events,
        Expression.receptions_eventsOfEach rest]

end

mutual

/-- The calls of a statement are made by the names that it calls. -/
theorem Statement.map_callee_events : (statement : Statement) →
    (Event.calls statement.events).map Call.callee = statement.calls
  | .block body => by
      simp [Statement.events, Statement.calls, Statement.map_callee_eventsOfEach body]
  | .declaration declared none => by simp [Statement.events, Statement.calls]
  | .declaration declared (some value) => by
      simp [Statement.events, Statement.calls, value.map_callee_events]
  | .assignment targets value => by
      simp [Statement.events, Statement.calls, value.map_callee_events]
  | .expression expression => expression.map_callee_events
  | .conditional condition body => by
      simp [Statement.events, Statement.calls, condition.map_callee_events,
        Statement.map_callee_eventsOfEach body]
  | .switch scrutinee cases => by
      simp [Statement.events, Statement.calls, scrutinee.map_callee_events,
        Case.map_callee_eventsOfEach cases]
  | .loop init condition step body => by
      simp [Statement.events, Statement.calls, condition.map_callee_events,
        Statement.map_callee_eventsOfEach init, Statement.map_callee_eventsOfEach step,
        Statement.map_callee_eventsOfEach body]
  | .breakLoop => rfl
  | .continueLoop => rfl
  | .definition _ _ _ body => Statement.map_callee_eventsOfEach body
  | .label _ => rfl
  | .stackAssignment _ => rfl

theorem Statement.map_callee_eventsOfEach : (statements : List Statement) →
    (Event.calls (Statement.eventsOfEach statements)).map Call.callee =
      Statement.callsOfEach statements
  | [] => rfl
  | statement :: rest => by
      simp [Statement.eventsOfEach, Statement.callsOfEach, statement.map_callee_events,
        Statement.map_callee_eventsOfEach rest]

theorem Case.map_callee_eventsOfEach : (cases : List Case) →
    (Event.calls (Case.eventsOfEach cases)).map Call.callee = Case.callsOfEach cases
  | [] => rfl
  | ⟨_, body⟩ :: rest => by
      simp [Case.eventsOfEach, Case.callsOfEach, Statement.map_callee_eventsOfEach body,
        Case.map_callee_eventsOfEach rest]

end

mutual

/-- What a statement gives values to is among its events. -/
theorem Statement.receptions_events : (statement : Statement) →
    Event.receptions statement.events = statement.receptions
  | .block body => by
      simp [Statement.events, Statement.receptions, Statement.receptions_eventsOfEach body]
  | .declaration declared none => by simp [Statement.events, Statement.receptions]
  | .declaration declared (some value) => by
      simp [Statement.events, Statement.receptions, value.receptions_events, Targets.count]
  | .assignment targets value => by
      simp [Statement.events, Statement.receptions, value.receptions_events, Targets.count]
  | .expression expression => expression.receptions_events
  | .conditional condition body => by
      simp [Statement.events, Statement.receptions, condition.receptions_events,
        Statement.receptions_eventsOfEach body]
  | .switch scrutinee cases => by
      simp [Statement.events, Statement.receptions, scrutinee.receptions_events,
        Case.receptions_eventsOfEach cases]
  | .loop init condition step body => by
      simp [Statement.events, Statement.receptions, condition.receptions_events,
        Statement.receptions_eventsOfEach init, Statement.receptions_eventsOfEach step,
        Statement.receptions_eventsOfEach body]
  | .breakLoop => rfl
  | .continueLoop => rfl
  | .definition _ _ _ body => Statement.receptions_eventsOfEach body
  | .label _ => rfl
  | .stackAssignment _ => rfl

theorem Statement.receptions_eventsOfEach : (statements : List Statement) →
    Event.receptions (Statement.eventsOfEach statements) = Statement.receptionsOfEach statements
  | [] => rfl
  | statement :: rest => by
      simp [Statement.eventsOfEach, Statement.receptionsOfEach, statement.receptions_events,
        Statement.receptions_eventsOfEach rest]

theorem Case.receptions_eventsOfEach : (cases : List Case) →
    Event.receptions (Case.eventsOfEach cases) = Case.receptionsOfEach cases
  | [] => rfl
  | ⟨_, body⟩ :: rest => by
      simp [Case.eventsOfEach, Case.receptionsOfEach, Statement.receptions_eventsOfEach body,
        Case.receptions_eventsOfEach rest]

end

namespace Definition

variable (definition : Definition)

/-- The calls of a function are made by the names that it calls. -/
theorem map_callee_events : (Event.calls definition.events).map Call.callee = definition.calls :=
  Statement.map_callee_eventsOfEach definition.body

theorem receptions_events : Event.receptions definition.events = definition.receptions :=
  Statement.receptions_eventsOfEach definition.body

end Definition

end YulLowering
