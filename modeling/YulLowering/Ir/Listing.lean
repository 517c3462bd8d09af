import YulLowering.Ir.Module

/-!
# Listings

The text of a module in an assembly-like form. A line starts with two spaces inside a block, and a
remark follows a semicolon: the label of a block, the variable a slot was made for, the effects of a
builtin, and the number of values a function returns when that is more than one.
-/

namespace YulLowering.Ir

/-- A type as it stands in front of a value. -/
def ValueType.text : ValueType → String
  | .int width => s!"i{width}"
  | .void => "void"

/-- A value where it is defined. -/
def ValueId.text (id : ValueId) : String :=
  s!"%{id.index}"

/-- A value where it is used, with its type. -/
def Value.text (value : Value) : String :=
  s!"{value.type.text} {value.id.text}"

/-- The address of a slot. -/
def Slot.text : Slot → String
  | .ofLocal id => s!"%local.{id.index}"
  | .ofGlobal id => s!"@spill.{id.index}"

/-- A function by number. -/
def FunctionId.text (id : FunctionId) : String :=
  s!"fn{id.index}"

/-- A block by number. -/
def BlockId.text (id : BlockId) : String :=
  s!"bb{id.index}"

/-- Texts separated by a comma and a blank. -/
def commaSeparated (texts : List String) : String :=
  ", ".intercalate texts

/-- The closing line of a block. -/
def Terminator.text : Terminator → String
  | .jump target => s!"br label %{target.text}"
  | .branch condition onTrue onFalse =>
    s!"br {condition.text}, label %{onTrue.text}, label %{onFalse.text}"
  | .switch scrutinee cases default =>
    let arms := cases.map fun (constant, target) =>
      s!" {scrutinee.type.text} {constant}, label %{target.text}"
    s!"switch {scrutinee.text}, label %{default.text} [" ++ ",".intercalate arms ++ " ]"
  | .ret none => "ret void"
  | .ret (some value) => s!"ret {value.text}"
  | .unreachable => "unreachable"

/-- The effects of a builtin, in a fixed order. The weaker of the two promises about side effects is
written only where the stronger one does not hold. -/
def Effects.text (effects : Effects) : String :=
  let purity :=
    if effects.sideEffectFree then ["side_effect_free"]
    else if effects.sideEffectFreeIfNoMsize then ["side_effect_free_if_no_msize"]
    else []
  " ".intercalate
    ((if effects.movable then ["movable"] else []) ++ purity ++
      (if effects.invalidatesStorage then ["invalidates_storage"] else []) ++
      (if effects.invalidatesMemory then ["invalidates_memory"] else []))

/-- The declaration of a builtin, without the line end. -/
def External.text (external : External) : String :=
  let result :=
    match external.results with
    | [] => "void"
    | [single] => single.text
    | several => "\x7b" ++ commaSeparated (several.map ValueType.text) ++ "\x7d"
  let parameters := commaSeparated (external.parameters.map ValueType.text)
  let effects := external.effects.text
  s!"declare {result} @{external.name}({parameters})" ++
    (if effects.isEmpty then "" else s!" ; {effects}")

/-- The name of a callee. `nameOf` gives the names of the module's functions; one that it does not
know is written by number. -/
def Callee.text (nameOf : FunctionId → Option String) : Callee → String
  | .builtin name _ => name
  | .function id => (nameOf id).getD id.text

/-- An instruction, without indentation and line end. -/
def Instruction.text (nameOf : FunctionId → Option String) (function : Function) :
    Instruction → String
  | .const dest constant => s!"{dest.id.text} = const {dest.type.text} {constant}"
  | .reserve slot type =>
    let remark := ((function.local? slot).map LocalSlot.name).getD "?"
    s!"{(Slot.ofLocal slot).text} = alloca {type.text} ; {remark}"
  | .load dest slot => s!"{dest.id.text} = load {dest.type.text}, {slot.text}"
  | .store slot value => s!"store {value.text}, {slot.text}"
  | .call dest callee arguments =>
    let target := s!"@{callee.text nameOf}({commaSeparated (arguments.map Value.text)})"
    match dest with
    | some dest => s!"{dest.id.text} = call {dest.type.text} {target}"
    | none => s!"call void {target}"
  | .testNonZero dest operand => s!"{dest.id.text} = icmp ne {operand.text}, 0"

/-- A block with its header, one line each. -/
def BasicBlock.text (nameOf : FunctionId → Option String) (function : Function)
    (block : BasicBlock) : String :=
  let header :=
    match block.label with
    | some label => s!"{block.id.text}: ; {label}\n"
    | none => s!"{block.id.text}:\n"
  let body := block.instructions.map fun instruction =>
    s!"  {instruction.text nameOf function}\n"
  header ++ String.join body ++ s!"  {block.terminator.text}\n"

/-- A function, with its blocks between braces. -/
def Function.textWith (nameOf : FunctionId → Option String) (function : Function) : String :=
  let parameters := commaSeparated (function.parameters.map Value.text)
  let remark := if function.resultCount > 1 then s!" ; returns {function.resultCount}" else ""
  s!"define {function.resultType.text} @{function.name}({parameters}){remark} \x7b\n" ++
    String.join (function.blocks.map fun block => block.text nameOf function) ++ "\x7d\n"

/-- A function by itself: callees in its module are written by number. -/
def Function.text (function : Function) : String :=
  function.textWith fun _ => none

/-- A whole module. Shared slots, builtins and each function follow an empty line. -/
def Module.text (module : Module) : String :=
  let globals := module.globals.map fun global => s!"{(Slot.ofGlobal global.id).text} = global\n"
  let externals := module.externals.map fun external => s!"{external.text}\n"
  let functions := module.functions.map fun function =>
    "\n" ++ function.textWith fun id => (module.function? id).map Function.name
  s!"; module {module.name}\n" ++
    (if globals.isEmpty then "" else "\n" ++ String.join globals) ++
    (if externals.isEmpty then "" else "\n" ++ String.join externals) ++
    String.join functions

end YulLowering.Ir
