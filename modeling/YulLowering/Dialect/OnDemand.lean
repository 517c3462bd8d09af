import YulLowering.Dialect

/-!
# Dialects on demand

A dialect is built when it is first demanded. Later demands give the same instance, until it is
dropped. Instances are numbered in the order they are built, so that two of them can be told apart
even where they hold equal catalogs.
-/

namespace YulLowering.Dialect

/-- A dialect that has been built. -/
structure Instance where
  serial : Nat
  dialect : Dialect
deriving DecidableEq, Repr, Inhabited

/-- A dialect that is built on demand. -/
structure OnDemand where
  /-- The catalog that each build produces. -/
  catalog : Dialect
  /-- How often the dialect has been built. -/
  builds : Nat
  held : Option Instance
deriving DecidableEq, Repr, Inhabited

namespace OnDemand

/-- A dialect that has never been built. -/
def ofCatalog (catalog : Dialect) : OnDemand :=
  ⟨catalog, 0, none⟩

/-- The instance that is held, built now if there is none. -/
def demand (source : OnDemand) : Instance × OnDemand :=
  match source.held with
  | some inst => (inst, source)
  | none =>
    let inst : Instance := ⟨source.builds, source.catalog⟩
    (inst, { source with builds := source.builds + 1, held := some inst })

/-- Drop the instance that is held; the next demand builds another. -/
def drop (source : OnDemand) : OnDemand :=
  { source with held := none }

/-- Demanding once more gives the same instance and builds nothing. -/
@[simp] theorem demand_demand (source : OnDemand) :
    source.demand.2.demand = source.demand := by
  unfold demand
  cases held : source.held <;> simp [held]

/-- Whether an instance is held. -/
def isBuilt (source : OnDemand) : Bool :=
  source.held.isSome

/-- What a diagnostic shows of a dialect on demand. -/
def text (source : OnDemand) : String :=
  s!"DialectProvider \x7b built: {source.isBuilt} \x7d"

end OnDemand

end YulLowering.Dialect
