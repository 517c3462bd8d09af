import YulLowering.Proofs.Headers
import YulLowering.Proofs.Imports
import YulLowering.Proofs.Listing.Recovery
import YulLowering.Proofs.SingleAssignment

/-!
# The listing of a lowered program

The listing of a lowered program tells all of the module. Its names, the labels of its blocks among them, are
words, so its text can be read in one way only, and what the text does not show can be told from the rest.
-/

namespace YulLowering

/-- The names of builtins are words. -/
def Dialect.Named (dialect : Dialect) : Prop :=
  ∀ builtin ∈ dialect.builtins, Ir.IsWord builtin.name

/-- The names of functions and variables are words. -/
structure Block.Named (program : Block) : Prop where
  ofFunctions : ∀ definition ∈ program.functions, Ir.IsWord definition.name
  ofVariables : ∀ definition ∈ program.functions, ∀ name ∈ definition.variables, Ir.IsWord name

theorem Dialect.Named.of_lookup {dialect : Dialect} (named : dialect.Named) {name : String}
    {builtin : Builtin} (found : dialect.lookup name = some builtin) : Ir.IsWord name := by
  obtain ⟨member, isName⟩ := Dialect.mem_of_lookup found
  exact isName ▸ named builtin member

namespace Ir

/-! ## Names -/

theorem isWord_of_mem_blockLabels : ∀ label ∈ blockLabels, IsWord label := by
  decide

theorem Effects.isWord_words (effects : Effects) : ∀ word ∈ effects.words, IsWord word := by
  obtain ⟨_ | _, _ | _, _ | _, _ | _, _ | _⟩ := effects <;> decide

section

variable {dialect : Dialect} {module : Module}

/-- The names of callees are those of builtins and functions. -/
theorem Callee.Known.isWord_text {callee : Callee} (known : callee.Known dialect module)
    (builtins : dialect.Named) (functions : ∀ function ∈ module.functions, IsWord function.name) :
    IsWord (callee.text module.functionName?) := by
  cases callee with
  | builtin name effects =>
      obtain ⟨builtin, found, -⟩ := known
      exact builtins.of_lookup found
  | function id =>
      obtain ⟨function, found, -⟩ := known
      rw [text_function found]
      exact functions function (List.mem_of_getElem? found)

/-- Where names are words, those in lines are. -/
theorem Instruction.named_line {instruction : Instruction} {function : Function}
    (builtins : dialect.Named) (functions : ∀ function ∈ module.functions, IsWord function.name)
    (locals : ∀ slot ∈ function.locals, IsWord slot.name)
    (known : ∀ callee ∈ instruction.callee?, callee.Known dialect module) :
    (instruction.line module.functionName? function).Named := by
  rcases instruction with _ | ⟨slot, type⟩ | _ | _ | ⟨_ | _, callee, _⟩ | _
  case reserve =>
    show IsWord (function.remark slot)
    unfold Function.remark
    cases found : function.local? slot with
    | none => decide
    | some declared => exact locals declared (List.mem_of_getElem? found)
  case call.none | call.some => exact (known callee rfl).isWord_text builtins functions
  case const | load | store | testNonZero => trivial

/-- Where names are words, those in the listing of a function are. -/
theorem Function.Regular.named_listing {function : Function} (regular : function.Regular dialect module)
    (builtins : dialect.Named) (functions : ∀ function ∈ module.functions, IsWord function.name)
    (isFunction : function ∈ module.functions) (locals : ∀ slot ∈ function.locals, IsWord slot.name)
    (labels : function.labels ⊆ blockLabels) : (function.listing module.functionName?).Named where
  name := functions function isFunction
  blocks := by
    intro shown isShown
    obtain ⟨block, isBlock, rfl⟩ := List.mem_map.mp isShown
    constructor
    case label =>
      intro label isLabel
      refine isWord_of_mem_blockLabels label (labels (List.mem_flatMap.mpr ⟨block, isBlock, ?_⟩))
      exact Option.mem_toList.mpr isLabel
    case lines =>
      intro line isLine
      obtain ⟨instruction, member, rfl⟩ := List.mem_map.mp isLine
      exact Instruction.named_line builtins functions locals (regular.known isBlock member).1

theorem External.Regular.named_listing {external : External} (regular : external.Regular dialect)
    (builtins : dialect.Named) : external.listing.Named where
  name := by
    obtain ⟨builtin, found, -⟩ := regular.effects
    exact builtins.of_lookup found
  effects := external.effects.isWord_words

end

/-- The callees of a function that is linked to what it names can be told from their names. -/
theorem Function.LinkedIn.known {dialect : Dialect} {module : Module} {definition : Definition}
    {function : Function} (linked : function.LinkedIn dialect module definition) :
    ∀ callee ∈ function.callees, callee.Known dialect module := by
  intro callee member
  obtain ⟨name, isCalled, isCallee⟩ :=
    List.mem_map.mp (linked.calls.mem_iff.mp (List.mem_map_of_mem member))
  unfold Module.callee? at isCallee
  cases found : dialect.lookup name with
  | some builtin =>
      rw [found] at isCallee
      cases isCallee
      exact ⟨builtin, found, rfl⟩
  | none =>
      obtain ⟨id, other, isNamed, isFunction, isName⟩ := linked.functions name isCalled found
      rw [found, isNamed] at isCallee
      cases isCallee
      exact ⟨other, isFunction, isName ▸ found⟩

end Ir

namespace Lowering

namespace Compiled

variable {dialect : Dialect} {types : TypeNames} {program : Block} {module : Ir.Module}

theorem definitions_eq (compiled : Compiled dialect types program module) :
    compiled.definitions = program.functions := by
  have areDefinitions := compiled.areDefinitions
  rw [Block.definitions_eq] at areDefinitions
  cases strays : program.strays with
  | nil =>
      rw [strays] at areDefinitions
      exact (Except.ok.inj areDefinitions).symm
  | cons fault rest =>
      rw [strays] at areDefinitions
      cases areDefinitions

/-- A lowered function is regular if no other one has its name. -/
theorem Entry.regular {compiled : Compiled dialect types program module} {index : Nat}
    (entry : compiled.Entry index) (valued : types.Valued)
    (distinct : (compiled.definitions.map Definition.name).Nodup) :
    entry.function.Regular dialect module where
  entry := entry.origin.grows.entry
  supply := entry.origin.valueSupply_eq
  discipline := entry.origin.slotDiscipline
  resultCount := by
    have describes := entry.describes
    rw [← entry.origin_signature distinct] at describes
    have headed := entry.origin.headedBy describes
    apply not_iff_not.mp
    rw [headed.resultCount, List.length_eq_zero_iff]
    exact headed.resultType_ne_void valued
  callees := entry.linkedIn.known

theorem regular_externals (compiled : Compiled dialect types program module) (valued : types.Valued) :
    ∀ external ∈ module.externals, external.Regular dialect := by
  intro external member
  obtain ⟨builtin, found, isExternal⟩ := compiled.externals.1 external member
  obtain ⟨-, effects, -, results⟩ := external_inv isExternal
  refine ⟨⟨builtin, found, effects⟩, ?_, TypeNames.resolveAll_ne_void valued results⟩
  rw [length_resolveAll results]
  exact length_results_le_of_external isExternal

theorem names_functions (compiled : Compiled dialect types program module) :
    module.functions.map Ir.Function.name = compiled.definitions.map Definition.name := by
  symm
  rw [← List.forall₂_eq_eq_eq, List.forall₂_map_left_iff, List.forall₂_map_right_iff]
  exact compiled.origins.imp fun _ _ ⟨origin⟩ => origin.grows.name.symm

/-- Lowered modules are regular if the names of their functions are distinct. -/
theorem regular (compiled : Compiled dialect types program module) (valued : types.Valued)
    (distinct : (program.functions.map Definition.name).Nodup) : module.Regular dialect := by
  rw [← compiled.definitions_eq] at distinct
  constructor
  case distinct => rwa [compiled.names_functions]
  case functions =>
    intro function member
    obtain ⟨index, isFunction⟩ := List.mem_iff_getElem?.mp member
    obtain ⟨entry, rfl⟩ := compiled.entry_of_function isFunction
    exact entry.regular valued distinct
  case externals => exact compiled.regular_externals valued

/-- Where names are words, those in the listing of a lowered module are. -/
theorem named_listing (compiled : Compiled dialect types program module)
    (regular : module.Regular dialect) (isWord : Ir.IsWord compiled.name) (builtins : dialect.Named)
    (named : program.Named) : module.listing.Named := by
  obtain ⟨ofFunctions, ofVariables⟩ := named
  rw [← compiled.definitions_eq] at ofFunctions ofVariables
  have functions : ∀ function ∈ module.functions, Ir.IsWord function.name := by
    intro function member
    have isName := List.mem_map_of_mem (f := Ir.Function.name) member
    rw [compiled.names_functions] at isName
    obtain ⟨definition, isDefinition, sameName⟩ := List.mem_map.mp isName
    exact sameName ▸ ofFunctions definition isDefinition
  constructor
  case name =>
    rw [Ir.Module.listing, compiled.name_module]
    exact isWord
  case externals =>
    intro shown isShown
    obtain ⟨external, member, rfl⟩ := List.mem_map.mp isShown
    exact (regular.externals external member).named_listing builtins
  case functions =>
    intro shown isShown
    obtain ⟨function, member, rfl⟩ := List.mem_map.mp isShown
    obtain ⟨index, isFunction⟩ := List.mem_iff_getElem?.mp member
    obtain ⟨entry, rfl⟩ := compiled.entry_of_function isFunction
    apply (regular.functions _ member).named_listing builtins functions member
    · intro slot isSlot
      exact ofVariables _ (List.mem_of_getElem? entry.isDefinition) _
        (entry.traced.locals (List.mem_map_of_mem isSlot))
    · exact entry.traced.labels

end Compiled

end Lowering

/-- The text of a lowered program tells all of its module: two programs whose names are words, lowered under
one dialect with whatever module names and default types, have the same text only if they have the same
module. Names of letters, digits, underlines, dots and dollar signs are words. -/
theorem Block.module_eq_of_text_eq {dialect : Dialect} {types otherTypes : Lowering.TypeNames}
    {default otherDefault name otherName : String} {program other : Block}
    {module otherModule : Ir.Module}
    (made : Lowering.TypeNames.ofDefaultName default = .ok types)
    (otherMade : Lowering.TypeNames.ofDefaultName otherDefault = .ok otherTypes)
    (lowered : program.toModule dialect types name = .ok module)
    (otherLowered : other.toModule dialect otherTypes otherName = .ok otherModule)
    (distinct : (program.functions.map Definition.name).Nodup)
    (otherDistinct : (other.functions.map Definition.name).Nodup)
    (builtins : dialect.Named) (named : program.Named) (otherNamed : other.Named)
    (isWord : Ir.IsWord name) (otherIsWord : Ir.IsWord otherName)
    (same : module.text = otherModule.text) : module = otherModule := by
  obtain ⟨compiled, rfl⟩ := Lowering.toModule_inv lowered
  obtain ⟨otherCompiled, rfl⟩ := Lowering.toModule_inv otherLowered
  have regular := compiled.regular (Lowering.TypeNames.valued_of_ofDefaultName made) distinct
  have otherRegular :=
    otherCompiled.regular (Lowering.TypeNames.valued_of_ofDefaultName otherMade) otherDistinct
  apply Ir.Module.eq_of_listing_eq regular otherRegular
  exact Ir.Module.listing_eq_of_text_eq (fun external member => (regular.externals external member).few)
    (fun external member => (otherRegular.externals external member).few)
    (compiled.named_listing regular isWord builtins named)
    (otherCompiled.named_listing otherRegular otherIsWord builtins otherNamed) same

/-- Builtins of the widest type. -/
def wideBuiltins : Dialect :=
  ⟨.strict, [.ofMovability "add" ["u256", "u256"] ["u256"] true false,
    .ofMovability "log" ["u256"] [] false false]⟩

/-- A loop, and a function whose two results are received, in few words. -/
def briefLoop : Block :=
  [.definition "sum_up" [⟨"n", ""⟩] [⟨"s", ""⟩, ⟨"done", "bool"⟩]
      [.loop [.declaration [⟨"i.0", ""⟩] none] (.identifier "n")
        [.assignment ["i.0"] (.call "add" [.identifier "i.0", .number "1" ""])]
        [.expression (.call "log" [.identifier "i.0"]), .breakLoop],
      .assignment ["done"] (.literal (.boolean true))],
    .definition "$main" [] []
      [.declaration [⟨"a", ""⟩, ⟨"b", "bool"⟩] (some (.call "sum_up" [.number "10" ""]))]]

/-- The same with its types written out, signed ones in part, and its constants written in another way. -/
def wordyLoop : Block :=
  [.definition "sum_up" [⟨"n", "s256"⟩] [⟨"s", "u256"⟩, ⟨"done", "bool"⟩]
      [.loop [.declaration [⟨"i.0", "u256"⟩] none] (.identifier "n")
        [.assignment ["i.0"] (.call "add" [.identifier "i.0", .number "0x01" "u256"])]
        [.expression (.call "log" [.identifier "i.0"]), .breakLoop],
      .assignment ["done"] (.number "1" "bool")],
    .definition "$main" [] []
      [.declaration [⟨"a", "u256"⟩, ⟨"b", "bool"⟩] (some (.call "sum_up" [.number "0xa" "s256"]))]]

theorem Block.module_eq_of_text_eq_briefLoop :
    ∃ module otherModule, Lowering.TypeNames.ofDefaultName "u256" = .ok .standard ∧
      Lowering.TypeNames.ofDefaultName "u8" = .ok ⟨.int 8⟩ ∧
      briefLoop.toModule wideBuiltins .standard "m" = .ok module ∧
      wordyLoop.toModule wideBuiltins ⟨.int 8⟩ "m" = .ok otherModule ∧
      (briefLoop.functions.map Definition.name).Nodup ∧
      (wordyLoop.functions.map Definition.name).Nodup ∧ wideBuiltins.Named ∧ briefLoop.Named ∧
      wordyLoop.Named ∧ Ir.IsWord "m" ∧ module.text = otherModule.text ∧ module = otherModule := by
  have isOk : (briefLoop.toModule wideBuiltins .standard "m").isOk = true := by decide +kernel
  have otherIsOk : (wordyLoop.toModule wideBuiltins ⟨.int 8⟩ "m").isOk = true := by decide +kernel
  have sameText : (briefLoop.toModule wideBuiltins .standard "m").map Ir.Module.text =
      (wordyLoop.toModule wideBuiltins ⟨.int 8⟩ "m").map Ir.Module.text := by decide +kernel
  have made : Lowering.TypeNames.ofDefaultName "u256" = .ok .standard := rfl
  have otherMade : Lowering.TypeNames.ofDefaultName "u8" = .ok ⟨.int 8⟩ := rfl
  have distinct : (briefLoop.functions.map Definition.name).Nodup := by decide
  have otherDistinct : (wordyLoop.functions.map Definition.name).Nodup := by decide
  have builtins : wideBuiltins.Named := by
    unfold Dialect.Named
    decide
  have named : briefLoop.Named := ⟨by decide, by decide⟩
  have otherNamed : wordyLoop.Named := ⟨by decide, by decide⟩
  have isWord : Ir.IsWord "m" := .of_alphanumeric (by decide)
  obtain ⟨module, lowered⟩ := Lowering.exists_of_isOk isOk
  obtain ⟨otherModule, otherLowered⟩ := Lowering.exists_of_isOk otherIsOk
  rw [lowered, otherLowered] at sameText
  have same : module.text = otherModule.text := Except.ok.inj sameText
  exact ⟨module, otherModule, made, otherMade, lowered, otherLowered, distinct, otherDistinct, builtins,
    named, otherNamed, isWord, same,
    Block.module_eq_of_text_eq made otherMade lowered otherLowered distinct otherDistinct builtins named
      otherNamed isWord isWord same⟩

end YulLowering
