import Mathlib.Data.Finset.Card
import Mathlib.Data.List.Induction
import YulLowering.Settings

/-!
# Dialects as maps that keep an order

However builtins are registered, the last one under a name counts, and the name keeps the place where it was
registered first. A dialect is a list that is searched by name. It may as well be looked up by position, in a
table that a registration keeps in step with the list; this module shows that both find the same.
-/

namespace YulLowering

namespace Dialect

/-- The names of the builtins in their order. -/
def names (dialect : Dialect) : List String :=
  dialect.builtins.map Builtin.name

/-! ## One registration -/

theorem lookup_eq_none_iff {dialect : Dialect} {name : String} :
    dialect.lookup name = none ↔ name ∉ dialect.names := by
  simp [lookup, names]

/-- Where names are distinct, each builtin is what its name means. -/
theorem lookup_of_mem {dialect : Dialect} (distinct : dialect.names.Nodup) {builtin : Builtin}
    (member : builtin ∈ dialect.builtins) : dialect.lookup builtin.name = some builtin := by
  cases found : dialect.lookup builtin.name with
  | none =>
      rw [lookup_eq_none_iff] at found
      exact absurd (List.mem_map_of_mem member) found
  | some other =>
      have isOther := List.mem_of_find?_eq_some found
      have named : other.name = builtin.name := by simpa using List.find?_some found
      rw [List.inj_on_of_nodup_map distinct isOther member named]

/-- A builtin of a new name goes to the end; any other takes the place of the one of its name. -/
theorem builtins_register (dialect : Dialect) (builtin : Builtin) :
    (dialect.register builtin).builtins =
      if builtin.name ∈ dialect.names then
        dialect.builtins.map fun other => if other.name = builtin.name then builtin else other
      else dialect.builtins ++ [builtin] := by
  unfold register
  cases found : dialect.lookup builtin.name with
  | none => rw [if_neg (lookup_eq_none_iff.mp found)]
  | some other =>
      have known : builtin.name ∈ dialect.names := by
        by_contra unknown
        rw [lookup_eq_none_iff.mpr unknown] at found
        cases found
      simp [known]

theorem names_register (dialect : Dialect) (builtin : Builtin) :
    (dialect.register builtin).names =
      if builtin.name ∈ dialect.names then dialect.names else dialect.names ++ [builtin.name] := by
  rw [names, builtins_register]
  split
  · rw [List.map_map, names]
    apply List.map_congr_left
    intro other _
    simp only [Function.comp_apply]
    split
    next named => exact named.symm
    · rfl
  · simp [names]

@[simp] theorem flavour_register (dialect : Dialect) (builtin : Builtin) :
    (dialect.register builtin).flavour = dialect.flavour := by
  unfold register
  split <;> rfl

theorem registerAll_concat (dialect : Dialect) (front : List Builtin) (builtin : Builtin) :
    dialect.registerAll (front ++ [builtin]) = (dialect.registerAll front).register builtin :=
  List.foldl_append

@[simp] theorem flavour_registerAll (dialect : Dialect) (builtins : List Builtin) :
    (dialect.registerAll builtins).flavour = dialect.flavour := by
  induction builtins using List.reverseRecOn with
  | nil => rfl
  | append_singleton front builtin ih => rw [registerAll_concat, flavour_register, ih]

/-! ## Looking up by position -/

/-- A catalog that is looked up by position: beside the builtins it has the position of each name. -/
structure Indexed where
  builtins : List Builtin
  positions : Std.HashMap String Nat

namespace Indexed

/-- A catalog without builtins. -/
def empty : Indexed :=
  ⟨[], ∅⟩

/-- The builtin at the position of a name. -/
def lookup (indexed : Indexed) (name : String) : Option Builtin :=
  indexed.positions[name]?.bind fun position => indexed.builtins[position]?

/-- Register a builtin at the position of its name, or at the end if the name has none. -/
def register (indexed : Indexed) (builtin : Builtin) : Indexed :=
  match indexed.positions[builtin.name]? with
  | some position => { indexed with builtins := indexed.builtins.set position builtin }
  | none =>
    ⟨indexed.builtins ++ [builtin],
      indexed.positions.insert builtin.name indexed.builtins.length⟩

/-- Register builtins in order. -/
def registerAll (indexed : Indexed) (builtins : List Builtin) : Indexed :=
  builtins.foldl register indexed

/-- The builtins are those of a dialect, and the positions are those of their names: all of them and no
others. -/
structure Tracks (indexed : Indexed) (dialect : Dialect) : Prop where
  builtins : indexed.builtins = dialect.builtins
  position : ∀ (name : String) (position : Nat),
    indexed.positions[name]? = some position ↔ dialect.names[position]? = some name

theorem tracks_empty (flavour : Flavour) : empty.Tracks (.empty flavour) where
  builtins := rfl
  position := by simp [empty, names, Dialect.empty]

namespace Tracks

variable {indexed : Indexed} {dialect : Dialect}

theorem position_eq_none_iff (tracks : indexed.Tracks dialect) {name : String} :
    indexed.positions[name]? = none ↔ name ∉ dialect.names := by
  simp [Option.eq_none_iff_forall_ne_some, tracks.position, List.mem_iff_getElem?]

/-- A builtin that is written at the position of its name replaces the one builtin of that name. -/
theorem set_eq (tracks : indexed.Tracks dialect) {builtin : Builtin} {position : Nat}
    (found : indexed.positions[builtin.name]? = some position) :
    dialect.builtins.set position builtin =
      dialect.builtins.map fun other => if other.name = builtin.name then builtin else other := by
  have named := (tracks.position _ _).mp found
  simp only [names, List.getElem?_map] at named
  apply List.ext_getElem?
  intro place
  rw [List.getElem?_set, List.getElem?_map]
  split
  next here =>
    subst here
    obtain ⟨other, isOther, sameName⟩ := Option.map_eq_some_iff.mp named
    rw [if_pos (List.getElem?_eq_some_iff.mp isOther).1, isOther, Option.map_some, if_pos sameName]
  next elsewhere =>
    cases isOther : dialect.builtins[place]? with
    | none => rfl
    | some other =>
        have differs : other.name ≠ builtin.name := by
          intro same
          have again : indexed.positions[builtin.name]? = some place :=
            (tracks.position _ _).mpr (by simp [names, isOther, same])
          rw [found] at again
          exact elsewhere (Option.some.inj again)
        simp [differs]

theorem register (tracks : indexed.Tracks dialect) (builtin : Builtin) :
    (indexed.register builtin).Tracks (dialect.register builtin) := by
  unfold Indexed.register
  cases found : indexed.positions[builtin.name]? with
  | some position =>
      have known : builtin.name ∈ dialect.names :=
        List.mem_of_getElem? ((tracks.position _ _).mp found)
      constructor
      · simp only [builtins_register, if_pos known, tracks.builtins, tracks.set_eq found]
      · simpa only [names_register, if_pos known] using tracks.position
  | none =>
      have isNew := tracks.position_eq_none_iff.mp found
      have count : indexed.builtins.length = dialect.names.length := by simp [tracks.builtins, names]
      constructor
      · simp only [builtins_register, if_neg isNew, tracks.builtins]
      · intro name position
        simp only [names_register, if_neg isNew, Std.HashMap.getElem?_insert, count, beq_iff_eq]
        by_cases same : builtin.name = name
        · -- The new name stands at the end and nowhere before.
          subst same
          grind
        · grind [tracks.position name position]

/-- Where names are distinct, looking up by position finds what a search finds. -/
theorem lookup_eq (tracks : indexed.Tracks dialect) (distinct : dialect.names.Nodup)
    (name : String) : indexed.lookup name = dialect.lookup name := by
  unfold Indexed.lookup
  cases found : indexed.positions[name]? with
  | none =>
      rw [Dialect.lookup_eq_none_iff.mpr (tracks.position_eq_none_iff.mp found)]
      rfl
  | some position =>
      rw [tracks.position, names, List.getElem?_map] at found
      obtain ⟨builtin, isBuiltin, rfl⟩ := Option.map_eq_some_iff.mp found
      rw [lookup_of_mem distinct (List.mem_of_getElem? isBuiltin), tracks.builtins]
      exact isBuiltin

end Tracks

end Indexed

/-! ## Histories of registrations -/

theorem eraseDups_concat {α : Type} [BEq α] [LawfulBEq α] (front : List α) (last : α) :
    (front ++ [last]).eraseDups =
      if front.contains last then front.eraseDups else front.eraseDups ++ [last] := by
  rw [List.eraseDups_append]
  split
  next known => simp_all [List.removeAll]
  next isNew => simp_all [List.removeAll, List.eraseDups_cons]

/-- What a dialect holds that has taken in builtins one after the other. -/
structure Records (dialect : Dialect) (history : List Builtin) : Prop where
  distinct : dialect.names.Nodup
  /-- The last builtin that was registered under a name counts. -/
  lookup : ∀ name,
    dialect.lookup name = (history.filter fun builtin => builtin.name == name).getLast?
  /-- Names stand where they were registered first. -/
  order : dialect.names = (history.map Builtin.name).eraseDups
  /-- The table of positions that the registrations have written is right. -/
  tracks : (Indexed.empty.registerAll history).Tracks dialect

theorem records_empty (flavour : Flavour) : (empty flavour).Records [] where
  distinct := .nil
  lookup _ := rfl
  order := rfl
  tracks := Indexed.tracks_empty flavour

namespace Records

variable {dialect : Dialect} {history : List Builtin}

theorem register (records : dialect.Records history) (builtin : Builtin) :
    (dialect.register builtin).Records (history ++ [builtin]) where
  distinct := by
    rw [names_register]
    split
    · exact records.distinct
    next isNew => simpa using records.distinct.concat isNew
  lookup name := by
    rw [lookup_register, List.filter_append, List.getLast?_append]
    split
    next named => simp [named]
    next other => simp [other, records.lookup]
  order := by
    rw [names_register, List.map_append, List.map_singleton, eraseDups_concat, records.order]
    simp
  tracks := by
    rw [Indexed.registerAll, List.foldl_append]
    exact records.tracks.register builtin

theorem registerAll (records : dialect.Records history) (builtins : List Builtin) :
    (dialect.registerAll builtins).Records (history ++ builtins) := by
  induction builtins using List.reverseRecOn with
  | nil => rwa [List.append_nil]
  | append_singleton front builtin ih =>
      rw [registerAll_concat, ← List.append_assoc]
      exact ih.register builtin

end Records

/-- A dialect is the map that a history of registrations says: it can be iterated over and looked up, and both
agree. -/
structure LastWins (dialect : Dialect) (history : List Builtin) : Prop
    extends dialect.Records history where
  undefined : ∀ name, dialect.lookup name = none ↔ ∀ builtin ∈ history, builtin.name ≠ name
  agrees : ∀ builtin ∈ dialect.builtins, dialect.lookup builtin.name = some builtin
  size : dialect.size = (history.map Builtin.name).toFinset.card
  indexed : ∀ name, (Indexed.empty.registerAll history).lookup name = dialect.lookup name

theorem Records.lastWins {dialect : Dialect} {history : List Builtin}
    (records : dialect.Records history) : dialect.LastWins history where
  toRecords := records
  undefined name := by
    rw [lookup_eq_none_iff, records.order]
    simp
  agrees _ := lookup_of_mem records.distinct
  size := by
    have sameNames : (history.map Builtin.name).toFinset = dialect.names.toFinset := by
      ext name
      simp [records.order]
    rw [sameNames, List.toFinset_card_of_nodup records.distinct, names, List.length_map, size]
  indexed := records.tracks.lookup_eq records.distinct

theorem Ethereum.records : Ethereum.dialect.Records Ethereum.hostFunctions :=
  (records_empty .strict).registerAll Ethereum.hostFunctions

/-- What a catalog is begun with. -/
inductive Beginning where
  | nothing (flavour : Flavour)
  | target
deriving DecidableEq, Repr

namespace Beginning

def dialect : Beginning → Dialect
  | nothing flavour => .empty flavour
  | target => Ethereum.dialect

/-- The builtins that have been registered in the beginning. -/
def history : Beginning → List Builtin
  | nothing _ => []
  | target => Ethereum.hostFunctions

theorem records (beginning : Beginning) : beginning.dialect.Records beginning.history := by
  cases beginning with
  | nothing flavour => exact records_empty flavour
  | target => exact Ethereum.records

end Beginning

/-- A builtin that is registered, by its descriptor or by the numbers of its parameters and results. -/
inductive Registration where
  | described (descriptor : Builtin)
  | counted (name : String) (parameterCount resultCount : Nat) (movable literalArguments : Bool)
deriving DecidableEq, Repr

/-- The descriptor of a builtin that is registered. -/
def Registration.descriptor : Registration → Builtin
  | described descriptor => descriptor
  | counted name parameterCount resultCount movable literalArguments =>
    .untyped name parameterCount resultCount movable literalArguments

end Dialect

/-! ## Settings -/

/-- What settings change in the catalog of the target. -/
structure Settings.Overrides (settings : Settings) : Prop where
  flavour : settings.dialect.flavour = Dialect.Ethereum.dialect.flavour
  /-- The last builtin that the settings have under a name counts, and else the one of the target. -/
  lookup : ∀ name, settings.dialect.lookup name =
    ((settings.builtins.filter fun builtin => builtin.name == name).getLast?.map
      BuiltinSetting.descriptor).or (Dialect.Ethereum.dialect.lookup name)
  /-- A builtin of the target stays where it is, or the builtin that replaces it stands there. -/
  kept : ∀ (position : Nat) (builtin : Builtin),
    Dialect.Ethereum.dialect.builtins[position]? = some builtin →
      ∃ current, settings.dialect.builtins[position]? = some current ∧ current.name = builtin.name ∧
        (builtin.name ∉ settings.builtins.map BuiltinSetting.name → current = builtin)
  /-- Other names follow those of the target. -/
  names : settings.dialect.names = Dialect.Ethereum.dialect.names ++
    ((settings.builtins.map BuiltinSetting.name).filter
      fun name => name ∉ Dialect.Ethereum.dialect.names).eraseDups

namespace Settings

theorem records_dialect (settings : Settings) : settings.dialect.Records
    (Dialect.Ethereum.hostFunctions ++ settings.builtins.map BuiltinSetting.descriptor) :=
  Dialect.Ethereum.records.registerAll _

theorem lookup_dialect (settings : Settings) (name : String) : settings.dialect.lookup name =
    ((settings.builtins.filter fun builtin => builtin.name == name).getLast?.map
      BuiltinSetting.descriptor).or (Dialect.Ethereum.dialect.lookup name) := by
  rw [settings.records_dialect.lookup, List.filter_append, List.getLast?_append,
    Dialect.Ethereum.records.lookup, List.filter_map, List.getLast?_map]
  rfl

theorem names_dialect (settings : Settings) : settings.dialect.names =
    Dialect.Ethereum.dialect.names ++ ((settings.builtins.map BuiltinSetting.name).filter
      fun name => name ∉ Dialect.Ethereum.dialect.names).eraseDups := by
  have named : Builtin.name ∘ BuiltinSetting.descriptor = BuiltinSetting.name := rfl
  have known (name : String) : name ∈ Dialect.Ethereum.dialect.names ↔
      name ∈ Dialect.Ethereum.hostFunctions.map Builtin.name := by
    rw [Dialect.Ethereum.records.order, List.mem_eraseDups]
  rw [settings.records_dialect.order, List.map_append, List.eraseDups_append,
    ← Dialect.Ethereum.records.order, List.map_map, named]
  simp only [List.removeAll, known, decide_not, List.elem_eq_mem]

theorem overrides (settings : Settings) : settings.Overrides where
  flavour := Dialect.flavour_registerAll _ _
  lookup := settings.lookup_dialect
  names := settings.names_dialect
  kept := by
    intro position builtin isBuiltin
    have named : settings.dialect.names[position]? = some builtin.name := by
      have before : Dialect.Ethereum.dialect.names[position]? = some builtin.name := by
        simp [Dialect.names, isBuiltin]
      rw [settings.names_dialect,
        List.getElem?_append_left (List.getElem?_eq_some_iff.mp before).1, before]
    rw [Dialect.names, List.getElem?_map] at named
    obtain ⟨current, isCurrent, sameName⟩ := Option.map_eq_some_iff.mp named
    refine ⟨current, isCurrent, sameName, fun untouched => ?_⟩
    have now := Dialect.lookup_of_mem settings.records_dialect.distinct
      (List.mem_of_getElem? isCurrent)
    have before := Dialect.lookup_of_mem Dialect.Ethereum.records.distinct
      (List.mem_of_getElem? isBuiltin)
    rw [sameName, lookup_dialect, before] at now
    have none_named : (settings.builtins.filter fun setting => setting.name == builtin.name) = [] := by
      simpa using untouched
    simpa [none_named] using now.symm

end Settings

/-- A dialect is a map in which the last registration of a name counts, with the names in the order of their
first registration, whatever it is begun with and whatever is registered. Hence settings change no more in the
dialect of the target than the builtins that they name. -/
theorem Dialect.registrations_lastWins :
    (∀ (beginning : Beginning) (registrations : List Registration),
      (beginning.dialect.registerAll (registrations.map Registration.descriptor)).LastWins
        (beginning.history ++ registrations.map Registration.descriptor)) ∧
      ∀ settings : Settings, settings.Overrides :=
  ⟨fun beginning registrations =>
    (beginning.records.registerAll (registrations.map Registration.descriptor)).lastWins,
    Settings.overrides⟩

end YulLowering
