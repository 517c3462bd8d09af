import YulLowering.Proofs.Scopes
import YulLowering.Proofs.Traces.Edits

/-!
# What names stand for

The variables of a function are numbered in the order of their declarations. A name stands for the latest
declaration of it in the innermost block that has one, which is read off the events of the source. The scopes
of a lowering agree with that, and the numbers are those of the slots.
-/

namespace YulLowering

/-- The variables that can be named, each with its number. The innermost block comes first, and in each block
the latest declaration. -/
structure Sight where
  innermost : List (String × Nat)
  around : List (List (String × Nat))
  /-- How many variables have been declared, whether or not they can still be named. -/
  count : Nat
deriving DecidableEq, Repr

/-- Several variables that are given the results of one call, by their numbers. -/
structure Delivery where
  callee : String
  targets : List (Option Nat)
deriving DecidableEq, Repr

namespace Sight

/-- No variable has been declared yet. -/
def empty : Sight :=
  ⟨[], [], 0⟩

/-- The number of the variable that a name stands for. -/
def lookup (sight : Sight) (name : String) : Option Nat :=
  (sight.innermost :: sight.around).flatten.lookup name

/-- What can be named after an event. -/
def step (sight : Sight) : Event → Sight
  | .entered => { sight with innermost := [], around := sight.innermost :: sight.around }
  | .left =>
    match sight.around with
    | [] => sight
    | innermost :: around => { sight with innermost := innermost, around := around }
  | .declared name =>
    { sight with
      innermost := (name, sight.count) :: sight.innermost
      count := sight.count + 1 }
  | .called _ | .received _ _ => sight

/-- What can be named after several events. -/
def after (sight : Sight) (events : List Event) : Sight :=
  events.foldl step sight

/-- The numbers of the variables that values are for. -/
def targets (sight : Sight) : Targets → List (Option Nat)
  | .latest count => (List.range' (sight.count - count) count).map some
  | .named names => names.map sight.lookup

/-- The delivery that an event asks for. -/
def delivery? (sight : Sight) : Event → Option Delivery
  | .received targets (.call callee _) =>
    if 2 ≤ targets.count then some ⟨callee, sight.targets targets⟩ else none
  | _ => none

/-- The deliveries that events ask for, in order. -/
def deliveries (sight : Sight) : List Event → List Delivery
  | [] => []
  | event :: rest => (sight.delivery? event).toList ++ (sight.step event).deliveries rest

theorem deliveries_append (sight : Sight) (events more : List Event) :
    sight.deliveries (events ++ more) = sight.deliveries events ++ (sight.after events).deliveries more := by
  induction events generalizing sight with
  | nil => rfl
  | cons event rest ih =>
      rw [List.cons_append, deliveries, ih, deliveries, List.append_assoc]
      rfl

/-- A single variable takes no delivery. -/
theorem delivery?_of_few (sight : Sight) {targets : Targets} (few : targets.count < 2)
    (value : Expression) : sight.delivery? (.received targets value) = none := by
  cases value with
  | call callee arguments => exact if_neg (Nat.not_le.mpr few)
  | identifier | literal | instructionCall | instruction => rfl

/-- The results of a call are delivered to several variables. -/
theorem delivery?_of_several (sight : Sight) {targets : Targets} (several : 2 ≤ targets.count)
    (callee : String) (arguments : List Expression) :
    sight.delivery? (.received targets (.call callee arguments)) =
      some ⟨callee, sight.targets targets⟩ :=
  if_pos several

end Sight

/-- The deliveries of a function, in the order of the source. Parameters and return variables are declared
around its body. -/
def Definition.deliveries (definition : Definition) : List Delivery :=
  Sight.empty.deliveries (TypedName.events definition.parameters ++
    TypedName.events definition.returns ++ Event.inBlock definition.events)

namespace Lowering

/-! ## Scopes -/

/-- A stack of declarations, without their types. -/
def Frames.sight (frames : Frames) : Sight where
  innermost := frames.innermost.map fun binding => (binding.name, binding.slot.index)
  around := frames.around.map (List.map fun binding => (binding.name, binding.slot.index))
  count := frames.next

/-- The scope of a state has what can be named in the source, and there are as many slots as variables. -/
def State.Shows (state : State) (sight : Sight) : Prop :=
  ∃ frames : Frames, state.scope.Represents frames ∧
    frames.next = state.draft.function.locals.length ∧ frames.sight = sight

theorem Progress.shows (progress : Progress) (name : String) (signature : Signature) :
    (progress.begin name signature).Shows .empty :=
  ⟨.empty 0, Scope.represents_empty 0, rfl, rfl⟩

theorem lookup_map_binding (bindings : List Binding) (name : String) :
    (bindings.map fun binding => (binding.name, binding.slot.index)).lookup name =
      (bindings.find? fun binding => binding.name == name).map fun binding => binding.slot.index := by
  induction bindings with
  | nil => rfl
  | cons binding rest ih =>
      rw [List.map_cons, List.lookup_cons, List.find?_cons, BEq.comm]
      cases binding.name == name with
      | true => rfl
      | false => exact ih

namespace State.Shows

variable {state later : State} {sight : Sight}

/-- A name stands for the variable that the scope has for it. -/
theorem lookup_eq (shows : state.Shows sight) (name : String) :
    sight.lookup name = (state.scope.lookup name).map fun binding => binding.slot.index := by
  obtain ⟨frames, represents, -, rfl⟩ := shows
  have all : (frames.sight.innermost :: frames.sight.around).flatten =
      frames.all.flatten.map fun binding => (binding.name, binding.slot.index) := by
    simp [Frames.sight, Frames.all, List.map_flatten]
  rw [Sight.lookup, all, lookup_map_binding, represents.lookup_eq, Frames.lookup, List.find?_flatten]

/-- Values go to the slots with the numbers of the variables that they are for. -/
theorem targets_eq (shows : state.Shows sight) {targets : Targets} {bindings : List Binding}
    (aims : state.Aims targets bindings) :
    sight.targets targets = bindings.map fun binding => some binding.slot.index := by
  cases targets with
  | latest count =>
      obtain ⟨frames, -, next, rfl⟩ := shows
      show (List.range' (frames.next - count) count).map some = _
      have slots : bindings.map (fun binding => binding.slot.index) = _ := aims
      rw [next, ← slots, List.map_map]
      rfl
  | named names =>
      have means : state.scope.Means names bindings := aims
      clear aims
      show names.map sight.lookup = _
      induction means with
      | nil => rfl
      | cons found _ ih => rw [List.map_cons, List.map_cons, ih, shows.lookup_eq, found]; rfl

/-- Only the scope and the number of slots matter. -/
theorem of_eq (shows : state.Shows sight) (scope : later.scope = state.scope)
    (locals : later.draft.function.locals = state.draft.function.locals) : later.Shows sight := by
  unfold Shows
  rw [scope, locals]
  exact shows

end State.Shows

variable {context : Context} {events : List Event} {state later : State} {sight : Sight}

/-- After an edit the scope has what can be named after the events that it answers. -/
theorem Edit.shows (edit : Edit context events state later) (shows : state.Shows sight) :
    later.Shows (sight.after events) := by
  cases edit with
  | quiet quiet => exact shows.of_eq quiet.scope quiet.locals
  | enter =>
      obtain ⟨frames, represents, next, rfl⟩ := shows
      exact ⟨frames.step .enter, represents.enter, next, rfl⟩
  | leave =>
      obtain ⟨frames, represents, next, rfl⟩ := shows
      refine ⟨frames.step .leave, represents.leave, frames.next_leave.trans next, ?_⟩
      rcases frames with ⟨_, _ | _, _⟩ <;> rfl
  | declare name type =>
      obtain ⟨frames, represents, next, rfl⟩ := shows
      have declared := represents.declare name type
      rw [next] at declared
      refine ⟨frames.step (.declare name type), declared, ?_, rfl⟩
      show frames.next + 1 = (state.draft.reserve name type).2.function.locals.length
      rw [Ir.Draft.locals_reserve, List.length_append, next]
      rfl
  | receive => exact shows.of_eq rfl (locals_writeAll _ _)
  | write | callFunction | callBuiltin | receiveOne => exact shows.of_eq rfl rfl

/-- Along a trace the scope has what can be named after the events of the source. -/
theorem Trace.shows (trace : Trace context events state later) (shows : state.Shows sight) :
    later.Shows (sight.after events) := by
  induction trace generalizing sight with
  | refl => exact shows
  | edit edit _ ih =>
      rw [Sight.after, List.foldl_append]
      exact ih (edit.shows shows)

end Lowering

end YulLowering
