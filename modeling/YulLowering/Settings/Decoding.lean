import YulLowering.Settings
import YulLowering.Syntax.Decoding

/-!
# Settings from data

Settings are a record all of whose fields have defaults; a builtin is one that has to have a name.
Unlike in a syntax tree, a field that a record does not have is refused.
-/

namespace YulLowering

open Json

/-- The fields of a record that may have no others. An array may hold more elements than there are
fields only where `surplus` says so; they are passed over. -/
def asClosedRecord (surplus : Bool) (names : List String) : Decoder (List (Option Json))
  | .array elements =>
    asRecord names (.array (if surplus then elements.take names.length else elements))
  | .object members =>
    if members.all fun (name, _) => names.contains name then asRecord names (.object members)
    else none
  | _ => none

/-- Decode a builtin that a user adds. -/
def BuiltinSetting.ofJson? (surplus : Bool) : Decoder BuiltinSetting := fun json => do
  let [name, parameters, results, movable, literalArguments] ←
    asClosedRecord surplus ["name", "params", "returns", "movable", "literal_arguments"] json
    | none
  pure ⟨← required asString name, ← defaulted [] (asList asString) parameters,
    ← defaulted [] (asList asString) results, ← defaulted false asBool movable,
    ← defaulted false asBool literalArguments⟩

/-- Decode settings, without asking whether they can be used. -/
def Settings.ofJson? (surplus : Bool) : Decoder Settings := fun json => do
  let [moduleName, defaultType, validate, builtins] ←
    asClosedRecord surplus ["module_name", "default_type", "validate", "builtins"] json
    | none
  pure ⟨← defaulted standard.moduleName asString moduleName,
    ← defaulted standard.defaultType asString defaultType,
    ← defaulted standard.validate asBool validate,
    ← defaulted standard.builtins (asList (BuiltinSetting.ofJson? surplus)) builtins⟩

end YulLowering
