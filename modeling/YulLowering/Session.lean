import YulLowering.Dialect.OnDemand
import YulLowering.Settings

/-!
# Sessions

A session lowers any number of programs under one choice of settings. It builds the dialect of its
settings when the first program needs it and uses that instance until it is told to drop it.
-/

namespace YulLowering

/-- Settings in use. -/
structure Session where
  settings : Settings
  types : Lowering.TypeNames
  dialects : Dialect.OnDemand
deriving DecidableEq, Repr, Inhabited

namespace Session

/-- A session under settings, if they can be used. -/
def create (settings : Settings) : Except SettingsFault Session := do
  let settings ← settings.checked
  let types ← settings.types
  pure ⟨settings, types, .ofCatalog settings.dialect⟩

/-- A session in which nothing has been chosen. -/
def standard : Session :=
  ⟨.standard, .standard, .ofCatalog Dialect.Ethereum.dialect⟩

/-- The instance of the dialect that is in use. -/
def dialect (session : Session) : Dialect.Instance × Session :=
  let (inst, dialects) := session.dialects.demand
  (inst, { session with dialects := dialects })

/-- Drop the instance of the dialect. -/
def dropDialect (session : Session) : Session :=
  { session with dialects := session.dialects.drop }

/-- Lower a program. -/
def lower (session : Session) (program : Block) : Except Lowering.Error Ir.Module × Session :=
  let (inst, session) := session.dialect
  (program.toModule inst.dialect session.types session.settings.moduleName, session)

end Session

end YulLowering
