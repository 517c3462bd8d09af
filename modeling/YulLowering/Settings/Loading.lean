import YulLowering.Files
import YulLowering.Settings.Decoding
import YulLowering.Toml.Document

/-!
# Loading settings

Settings are kept as TOML text, most often in a file.
-/

namespace YulLowering.Settings

/-- Settings from TOML text. -/
def ofToml (text : String) : Except SettingsFault Settings :=
  match Toml.read? text >>= Settings.ofJson? true with
  | some settings => settings.checked
  | none => .error .malformed

/-- Settings from a file. -/
def load {m : Type → Type} [Monad m] (files : FileAccess m) (path : String) :
    m (Except SettingsFault Settings) := do
  match ← files.readText path with
  | .ok text => return ofToml text
  | .error fault => return .error (.unreadable path fault)

end YulLowering.Settings
