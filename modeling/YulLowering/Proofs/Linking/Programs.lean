import YulLowering.Proofs.Linking.Code
import YulLowering.Proofs.Naming
import YulLowering.Proofs.Violations.Source

/-!
# Every call is linked

The call instructions of a lowered function are the call expressions of its definition, each linked to the
builtin of the called name or else to the function that the name means. Where a call gives values to several
variables, that function has as many results.
-/

namespace YulLowering

namespace Ir

/-- What a call instruction calls. -/
def Instruction.callee? : Instruction → Option Callee
  | call _ callee _ => some callee
  | _ => none

/-- What the call instructions of a function call, in block order. -/
def Function.callees (function : Function) : List Callee :=
  function.instructions.filterMap Instruction.callee?

theorem Function.callees_eq (function : Function) :
    function.callees = function.links.map Link.callee := by
  have same : Instruction.callee? = fun instruction => instruction.link?.map Link.callee := by
    funext instruction
    cases instruction <;> rfl
  rw [callees, links, instructions, same, List.filterMap_flatMap, List.map_flatMap]
  congr 1
  funext block
  rw [List.map_filterMap]

/-- A call instruction of a function has one of its links. -/
theorem Function.mem_links {function : Function} {dest : Option Value} {callee : Callee}
    {arguments : List Value} (member : .call dest callee arguments ∈ function.instructions) :
    (⟨callee, dest.map Value.type⟩ : Link) ∈ function.links := by
  obtain ⟨block, isBlock, isInstruction⟩ := List.mem_flatMap.mp member
  exact List.mem_flatMap.mpr ⟨block, isBlock, List.mem_filterMap.mpr ⟨_, isInstruction, rfl⟩⟩

/-- What a call of a name calls: the builtin of that name, or else the function of the module that the name
means. -/
def Module.callee? (dialect : Dialect) (module : Module) (name : String) : Option Callee :=
  match dialect.lookup name with
  | some builtin => some (.builtin name builtin.effects)
  | none => (module.functionNamed? name).map .function

/-- A function whose calls are those of a definition, linked to what the names mean in a module. -/
structure Function.LinkedIn (dialect : Dialect) (module : Module) (definition : Definition)
    (function : Function) : Prop where
  /-- The calls are those of the source, each as often as it is written there. -/
  calls : (function.callees.map some).Perm (definition.calls.map (module.callee? dialect))
  /-- A called name that no builtin has is the name of a function, and means that function. -/
  functions : ∀ name ∈ definition.calls, dialect.lookup name = none →
    ∃ id callee, module.functionNamed? name = some id ∧ module.function? id = some callee ∧
      callee.name = name
  /-- The call of a function has a result exactly if the function returns one, and of its type. -/
  results : ∀ dest id arguments, .call dest (.function id) arguments ∈ function.instructions →
    ∃ callee, module.function? id = some callee ∧
      dest.map Value.type = callee.resultType.carried?
  /-- The values that several variables are given are the results of one function. -/
  receptions : ∀ reception ∈ definition.receptions, 2 ≤ reception.count →
    ∃ name arguments id callee, reception.value = .call name arguments ∧
      dialect.lookup name = none ∧ module.functionNamed? name = some id ∧
      module.function? id = some callee ∧ callee.resultCount = reception.count

end Ir

namespace Lowering

namespace Compiled

variable {dialect : Dialect} {types : TypeNames} {program : Block} {module : Ir.Module}

/-- A name that is resolved to a signature means a function that has been written for it. -/
theorem function_of_resolveCall (compiled : Compiled dialect types program module) {name : String}
    {signature : Signature}
    (resolved : Context.resolveCall ⟨dialect, types, compiled.signatures⟩ name =
      .ok (.function signature)) :
    ∃ callee, dialect.lookup name = none ∧ module.functionNamed? name = some signature.id ∧
      module.function? signature.id = some callee ∧ callee.name = name ∧
      callee.resultType = signature.resultType ∧
      callee.resultCount = signature.results.length := by
  obtain ⟨notBuiltin, found⟩ := lookups_of_resolveCall resolved
  obtain ⟨index, entry, rfl, isName, -, isNamed⟩ := compiled.meant found
  have own := entry.origin.isSignature
  rw [isName, found] at own
  have same := Option.some.inj own
  refine ⟨entry.function, notBuiltin, ?_, ?_, entry.name_function.trans isName, ?_, ?_⟩
  · rw [entry.describes.id, isNamed]
  · rw [entry.describes.id, Ir.Module.function?, entry.isFunction]
  · rw [same]
    exact entry.origin.grows.resultType
  · rw [same]
    exact entry.origin.resultCount_eq

/-- A name is linked to what it means in the finished module. -/
theorem callee?_of_link? (compiled : Compiled dialect types program module) {name : String}
    {link : Ir.Link}
    (isLink : Context.link? ⟨dialect, types, compiled.signatures⟩ name = some link) :
    module.callee? dialect name = some link.callee := by
  unfold Context.link? at isLink
  split at isLink
  · next signature resolved =>
    cases isLink
    obtain ⟨callee, notBuiltin, isNamed, -⟩ := compiled.function_of_resolveCall resolved
    rw [Ir.Module.callee?, notBuiltin]
    show (module.functionNamed? name).map _ = _
    rw [isNamed]
    rfl
  · next builtin resolved =>
    have found := lookup_of_resolveCall resolved
    have named := (Dialect.mem_of_lookup found).2
    cases isExternal : Context.external ⟨dialect, types, compiled.signatures⟩ builtin with
    | error fault =>
        rw [isExternal] at isLink
        cases isLink
    | ok external =>
        rw [isExternal] at isLink
        cases isLink
        obtain ⟨isName, effects, -⟩ := external_inv isExternal
        rw [Ir.Module.callee?, found]
        show some (Ir.Callee.builtin name builtin.effects) = some (.builtin external.name external.effects)
        rw [isName, effects, named]
  · cases isLink

/-- The result of the call of a function is that of the function in the finished module. -/
theorem result_of_link? (compiled : Compiled dialect types program module) {name : String}
    {id : Ir.FunctionId} {result : Option Ir.ValueType}
    (isLink : Context.link? ⟨dialect, types, compiled.signatures⟩ name =
      some ⟨.function id, result⟩) :
    ∃ callee, module.function? id = some callee ∧ result = callee.resultType.carried? := by
  unfold Context.link? at isLink
  split at isLink
  · next signature resolved =>
    cases isLink
    obtain ⟨callee, -, -, isFunction, -, resultType, -⟩ := compiled.function_of_resolveCall resolved
    exact ⟨callee, isFunction, by rw [resultType]⟩
  · next builtin resolved =>
    obtain ⟨external, -, isOther⟩ := Option.map_eq_some_iff.mp isLink
    cases isOther
  · cases isLink

/-- A called name that no builtin has is that of a function. -/
theorem function_of_link? (compiled : Compiled dialect types program module) {name : String}
    {link : Ir.Link} (notBuiltin : dialect.lookup name = none)
    (isLink : Context.link? ⟨dialect, types, compiled.signatures⟩ name = some link) :
    ∃ id callee, module.functionNamed? name = some id ∧ module.function? id = some callee ∧
      callee.name = name := by
  unfold Context.link? at isLink
  split at isLink
  · next signature resolved =>
    obtain ⟨callee, -, isNamed, isFunction, isName, -⟩ := compiled.function_of_resolveCall resolved
    exact ⟨signature.id, callee, isNamed, isFunction, isName⟩
  · next builtin resolved =>
    rw [lookup_of_resolveCall resolved] at notBuiltin
    cases notBuiltin
  · cases isLink

theorem Entry.linkedIn {compiled : Compiled dialect types program module} {index : Nat}
    (entry : compiled.Entry index) :
    entry.function.LinkedIn dialect module entry.definition := by
  have links := entry.traced.links
  have receives := entry.traced.receives
  have linked {name : String} (isCalled : name ∈ entry.definition.calls) :
      ∃ link, Context.link? ⟨dialect, types, compiled.signatures⟩ name = some link := by
    obtain ⟨link, -, isLink⟩ := List.mem_map.mp (links.mem_iff.mpr (List.mem_map_of_mem isCalled))
    exact ⟨link, isLink.symm⟩
  constructor
  case calls =>
    have callees := links.map (Option.map Ir.Link.callee)
    rw [List.map_map, List.map_map] at callees
    have same : entry.definition.calls.map (Option.map Ir.Link.callee ∘
        Context.link? ⟨dialect, types, compiled.signatures⟩) =
        entry.definition.calls.map (module.callee? dialect) := by
      apply List.map_congr_left
      intro name isCalled
      obtain ⟨link, isLink⟩ := linked isCalled
      rw [Function.comp_apply, isLink, compiled.callee?_of_link? isLink]
      rfl
    rw [Ir.Function.callees_eq, List.map_map, ← same]
    exact callees
  case functions =>
    intro name isCalled notBuiltin
    obtain ⟨link, isLink⟩ := linked isCalled
    exact compiled.function_of_link? notBuiltin isLink
  case results =>
    intro dest id arguments member
    have isLink := links.mem_iff.mp (List.mem_map_of_mem (Ir.Function.mem_links member))
    obtain ⟨name, -, isLink⟩ := List.mem_map.mp isLink
    exact compiled.result_of_link? isLink
  case receptions =>
    intro reception isReception several
    obtain ⟨name, arguments, signature, isCall, resolved, count⟩ :=
      receives reception isReception several
    obtain ⟨callee, notBuiltin, isNamed, isFunction, -, -, resultCount⟩ :=
      compiled.function_of_resolveCall resolved
    exact ⟨name, arguments, signature.id, callee, isCall, notBuiltin, isNamed, isFunction,
      resultCount.trans count⟩

end Compiled

end Lowering

/-- The calls of every lowered function are those of its definition, linked to what they mean: builtins
first, then the functions of the program, of which the last one of a name counts. -/
theorem Block.linkedIn_of_toModule {dialect : Dialect} {types : Lowering.TypeNames} {name : String}
    {program : Block} {definitions : List Definition} {module : Ir.Module}
    (areDefinitions : program.definitions = .ok definitions)
    (lowered : program.toModule dialect types name = .ok module) :
    List.Forall₂ (fun definition function => function.LinkedIn dialect module definition)
      definitions module.functions := by
  obtain ⟨compiled⟩ := Lowering.toModule_inv lowered
  obtain rfl : compiled.definitions = definitions :=
    Except.ok.inj (compiled.areDefinitions.symm.trans areDefinitions)
  exact compiled.forall₂_of_entries fun entry => entry.linkedIn

/-- Functions that call each other, one of them from where control cannot go. Two functions share a name, and
another one has the name of a builtin. -/
def tangledCalls : Block :=
  [.definition "even" [⟨"n", ""⟩] [⟨"r", ""⟩]
      [.conditional (.identifier "n") [.assignment ["r"] (.call "odd" [.identifier "n"])]],
    .definition "odd" [⟨"n", ""⟩] [⟨"r", ""⟩]
      [.loop [] (.call "add" [.identifier "n", .call "even" [.identifier "n"]]) []
        [.breakLoop,
          .declaration [⟨"x", ""⟩, ⟨"y", ""⟩] (some (.call "pair" [.call "even" [.identifier "n"]]))]],
    .definition "pair" [⟨"a", ""⟩] [⟨"r", ""⟩] [],
    .definition "pair" [⟨"a", ""⟩] [⟨"r", ""⟩, ⟨"s", ""⟩]
      [.assignment ["r", "s"] (.call "pair" [.call "add" [.identifier "a", .identifier "a"]])],
    .definition "add" [⟨"a", ""⟩] [] []]

/-- A builtin that adds. -/
def addition : Dialect :=
  ⟨.strict, [.ofMovability "add" ["", ""] [""] true false]⟩

theorem Block.linkedIn_of_toModule_tangledCalls :
    ∃ module, tangledCalls.definitions = .ok tangledCalls.functions ∧
      tangledCalls.toModule addition .standard "m" = .ok module ∧
      List.Forall₂ (fun definition function => function.LinkedIn addition module definition)
        tangledCalls.functions module.functions := by
  have isOk : (tangledCalls.toModule addition .standard "m").isOk = true := by decide +kernel
  have areDefinitions : tangledCalls.definitions = .ok tangledCalls.functions := rfl
  obtain ⟨module, lowered⟩ := Lowering.exists_of_isOk isOk
  exact ⟨module, areDefinitions, lowered, Block.linkedIn_of_toModule areDefinitions lowered⟩

end YulLowering
