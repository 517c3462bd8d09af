import YulLowering.Proofs.Traces.Programs

/-!
# Calls and their links

A call instruction is linked to a builtin or to a function of the module. What a called name is linked to
is known while a function is lowered, and the links of the code that has been written are, up to their
order, those of the names that have been called in the source.
-/

namespace YulLowering

namespace Ir

/-- What a call instruction calls, and the type of its result if it has one. -/
structure Link where
  callee : Callee
  result : Option ValueType
deriving DecidableEq, Repr, Inhabited

/-- The link of a call instruction. -/
def Instruction.link? : Instruction → Option Link
  | call dest callee _ => some ⟨callee, dest.map Value.type⟩
  | _ => none

/-- The links of all call instructions of a function, in block order. -/
def Function.links (function : Function) : List Link :=
  function.blocks.flatMap fun block => block.instructions.filterMap Instruction.link?

/-- The link of a call. -/
def Call.link (call : Call) : Link :=
  ⟨call.callee, call.dest.map Value.type⟩

theorem Function.links_eq (function : Function) :
    function.links = function.calls.map Call.link := by
  have same : Instruction.link? = fun instruction => instruction.call?.map Call.link := by
    funext instruction
    cases instruction <;> rfl
  rw [links, calls, instructions, same, List.filterMap_flatMap, List.map_flatMap]
  congr 1
  funext block
  rw [List.map_filterMap]

end Ir

namespace Lowering

/-- What a called name is linked to, if it can be called. -/
def Context.link? (context : Context) (name : String) : Option Ir.Link :=
  match context.resolveCall name with
  | .ok (.function signature) =>
    some ⟨.function signature.id, signature.resultType.carried?⟩
  | .ok (.builtin builtin) =>
    (context.external builtin).toOption.map fun external =>
      ⟨.builtin external.name external.effects, (external.results.head?.getD .void).carried?⟩
  | .error _ => none

theorem Context.link?_of_function {context : Context} {name : String} {signature : Signature}
    (resolved : context.resolveCall name = .ok (.function signature)) :
    context.link? name = some ⟨.function signature.id, signature.resultType.carried?⟩ := by
  rw [link?, resolved]

theorem Context.link?_of_builtin {context : Context} {name : String} {builtin : Builtin}
    {external : Ir.External} (resolved : context.resolveCall name = .ok (.builtin builtin))
    (isExternal : context.external builtin = .ok external) :
    context.link? name = some ⟨.builtin external.name external.effects,
      (external.results.head?.getD .void).carried?⟩ := by
  rw [link?, resolved]
  show (context.external builtin).toOption.map _ = _
  rw [isExternal]
  rfl

variable {context : Context}

/-- A call is written with the link of the name that it is made by. -/
theorem Context.Writes.link {code : List Ir.Instruction} {call : Call} {written : Ir.Call}
    (writes : context.Writes code call written) : some written.link = context.link? call.callee := by
  cases writes with
  | function signature dest arguments resolved result =>
      rw [Context.link?_of_function resolved, Ir.Call.link, result]
  | builtin builtin external dest arguments resolved isExternal result =>
      rw [Context.link?_of_builtin resolved isExternal, Ir.Call.link, result]

/-- The calls of a function are linked to what they name in its definition. -/
theorem Traced.links {definition : Definition} {function : Ir.Function}
    (traced : Traced context definition function) :
    (function.links.map some).Perm (definition.calls.map context.link?) := by
  obtain ⟨calls, perm, writes⟩ := traced.written
  have links : calls.map (some ∘ Ir.Call.link) = definition.calls.map context.link? := by
    rw [← definition.map_callee_events, List.map_map]
    symm
    rw [← List.forall₂_eq_eq_eq, List.forall₂_map_left_iff, List.forall₂_map_right_iff]
    exact writes.imp fun _ _ writes => writes.link.symm
  rw [← links, Ir.Function.links_eq, List.map_map]
  exact perm.map _

end Lowering

end YulLowering
