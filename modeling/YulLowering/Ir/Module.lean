import YulLowering.Ir.Function

/-!
# Modules

A module is one lowered program: its functions, the slots they share and the builtins they call.
-/

namespace YulLowering.Ir

/-- A builtin as the module declares it. -/
structure External where
  name : String
  parameters : List ValueType
  results : List ValueType
  effects : Effects
deriving DecidableEq, Repr, Inhabited

/-- A lowered program. -/
structure Module where
  name : String
  functions : List Function
  globals : List GlobalSlot
  /-- Declared builtins, in the order of their first use. -/
  externals : List External
deriving DecidableEq, Repr, Inhabited

namespace Module

/-- A module with nothing in it. -/
def empty (name : String) : Module :=
  ⟨name, [], [], []⟩

/-- Add a function after those there are. -/
def pushFunction (module : Module) (function : Function) : FunctionId × Module :=
  (⟨module.functions.length⟩, { module with functions := module.functions ++ [function] })

/-- Add a shared slot. -/
def pushGlobal (module : Module) : GlobalId × Module :=
  let id : GlobalId := ⟨module.globals.length⟩
  (id, { module with globals := module.globals ++ [⟨id⟩] })

/-- The declaration of a builtin. -/
def external? (module : Module) (name : String) : Option External :=
  module.externals.find? fun external => external.name == name

/-- Declare a builtin. A name keeps its first declaration; the result says whether this was it. -/
def declare (module : Module) (external : External) : Bool × Module :=
  match module.external? external.name with
  | some _ => (false, module)
  | none => (true, { module with externals := module.externals ++ [external] })

/-- The function with a number. -/
def function? (module : Module) (id : FunctionId) : Option Function :=
  module.functions[id.index]?

/-- The number of the last function with a name. -/
def functionNamed? (module : Module) (name : String) : Option FunctionId :=
  (module.functions.zipIdx.reverse.find? fun (function, _) => function.name == name).map
    fun (_, index) => ⟨index⟩

/-- The instructions of all functions, in function order. -/
def instructions (module : Module) : List Instruction :=
  module.functions.flatMap Function.instructions

end Module

end YulLowering.Ir
