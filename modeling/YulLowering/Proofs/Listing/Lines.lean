import YulLowering.Proofs.Listing.Fields

/-!
# What a listing says

A listing does not show all of a module. What it shows is written down here as data, part by part, together
with the words that say it. The words of a listing can be read in one way only.
-/

namespace YulLowering.Ir

/-! ## Listings as data -/

namespace Listing

/-- What is shown of an instruction. -/
inductive Line where
  | const (dest : Value) (constant : Nat)
  | reserve (slot : LocalId) (type : ValueType) (remark : String)
  | load (dest : Value) (slot : Slot)
  | store (slot : Slot) (value : Value)
  | call (dest : Value) (callee : String) (arguments : List Value)
  /-- A call without a result. -/
  | perform (callee : String) (arguments : List Value)
  | testNonZero (dest : ValueId) (operand : Value)
deriving DecidableEq, Repr

/-- What is shown of a block. -/
structure Block where
  id : BlockId
  label : Option String
  lines : List Line
  terminator : Terminator
deriving DecidableEq, Repr

/-- What is shown of a function. The number of results is shown where there are several. -/
structure Function where
  name : String
  parameters : List Value
  resultType : ValueType
  several : Option Nat
  blocks : List Block
deriving DecidableEq, Repr

/-- What is shown of a builtin that has at most one result. -/
structure External where
  name : String
  parameters : List ValueType
  result : ValueType
  effects : List String
deriving DecidableEq, Repr

end Listing

/-- What is shown of a module. -/
structure Listing where
  name : String
  globals : List GlobalSlot
  externals : List Listing.External
  functions : List Listing.Function
deriving DecidableEq, Repr

/-! ## Words -/

/-- A type with the mark behind it. -/
def ValueType.fields (type : ValueType) (mark : Mark) : List Field :=
  [⟨type.text, mark⟩]

/-- A value where it is used, with the mark behind it. -/
def Value.fields (value : Value) (mark : Mark) : List Field :=
  Field.words mark [value.type.text, value.id.text]

/-- An arm of a switch on a value of a type. -/
def armFields (type : ValueType) (arm : Nat × BlockId) (mark : Mark) : List Field :=
  Field.words .comma [type.text, arm.1.repr] ++ Field.words mark ["", "label", "%" ++ arm.2.text]

/-- The line of a terminator. -/
def Terminator.fields : Terminator → List Field
  | jump target => Field.words .lineEnd ["", "", "br", "label", "%" ++ target.text]
  | branch condition onTrue onFalse =>
    Field.words .comma ["", "", "br", condition.type.text, condition.id.text] ++
      Field.words .comma ["", "label", "%" ++ onTrue.text] ++
      Field.words .lineEnd ["", "label", "%" ++ onFalse.text]
  | switch scrutinee cases default =>
    Field.words .comma ["", "", "switch", scrutinee.type.text, scrutinee.id.text] ++
      Field.words .blank ["", "label", "%" ++ default.text, "["] ++
      Field.listed (armFields scrutinee.type) .blank cases ++ [⟨"]", .lineEnd⟩]
  | ret none => Field.words .lineEnd ["", "", "ret", "void"]
  | ret (some value) => Field.words .lineEnd ["", "", "ret", value.type.text, value.id.text]
  | unreachable => Field.words .lineEnd ["", "", "unreachable"]

namespace Listing

/-- The line of an instruction. -/
def Line.fields : Line → List Field
  | const dest constant =>
    Field.words .lineEnd ["", "", dest.id.text, "=", "const", dest.type.text, constant.repr]
  | reserve slot type remark =>
    Field.words .lineEnd ["", "", (Slot.ofLocal slot).text, "=", "alloca", type.text, ";", remark]
  | load dest slot =>
    Field.words .comma ["", "", dest.id.text, "=", "load", dest.type.text] ++
      Field.words .lineEnd ["", slot.text]
  | store slot value =>
    Field.words .comma ["", "", "store", value.type.text, value.id.text] ++
      Field.words .lineEnd ["", slot.text]
  | call dest callee arguments =>
    Field.words .opening ["", "", dest.id.text, "=", "call", dest.type.text, "@" ++ callee] ++
      Field.enclosed Value.fields arguments ++ [⟨"", .lineEnd⟩]
  | perform callee arguments =>
    Field.words .opening ["", "", "call", "void", "@" ++ callee] ++
      Field.enclosed Value.fields arguments ++ [⟨"", .lineEnd⟩]
  | testNonZero dest operand =>
    Field.words .comma
        ["", "", dest.text, "=", "icmp", "ne", operand.type.text, operand.id.text] ++
      Field.words .lineEnd ["", "0"]

/-- The lines of a block. -/
def Block.fields (block : Block) : List Field :=
  ⟨block.id.text, .colon⟩ ::
    (match block.label with
      | some label => Field.words .lineEnd ["", ";", label]
      | none => [⟨"", .lineEnd⟩]) ++
    block.lines.flatMap Line.fields ++ block.terminator.fields

/-- The lines of a function, after an empty one. -/
def Function.fields (function : Function) : List Field :=
  ⟨"", .lineEnd⟩ :: Field.words .opening ["define", function.resultType.text, "@" ++ function.name] ++
    Field.enclosed Value.fields function.parameters ++
    (match function.several with
      | some count => Field.words .lineEnd ["", ";", "returns", count.repr, "\x7b"]
      | none => Field.words .lineEnd ["", "\x7b"]) ++
    function.blocks.flatMap Block.fields ++ [⟨"\x7d", .lineEnd⟩]

/-- The line of a builtin. -/
def External.fields (external : External) : List Field :=
  Field.words .opening ["declare", external.result.text, "@" ++ external.name] ++
    Field.enclosed ValueType.fields external.parameters ++
    (match external.effects with
      | [] => [⟨"", .lineEnd⟩]
      | effects => Field.words .lineEnd ("" :: ";" :: effects))

/-- Lines after an empty one, if there are any. -/
def sectionFields {α : Type} (write : α → List Field) : List α → List Field
  | [] => []
  | parts => ⟨"", .lineEnd⟩ :: parts.flatMap write

end Listing

/-- The line of a shared slot. -/
def GlobalSlot.fields (global : GlobalSlot) : List Field :=
  Field.words .lineEnd [(Slot.ofGlobal global.id).text, "=", "global"]

/-- All lines of a module. -/
def Listing.fields (listing : Listing) : List Field :=
  Field.words .lineEnd [";", "module", listing.name] ++
    sectionFields GlobalSlot.fields listing.globals ++
    sectionFields External.fields listing.externals ++ listing.functions.flatMap Function.fields

/-! ## Reading -/

theorem ValueType.delimited_fields : DelimitedItem ValueType.fields := by
  intro type other mark otherMark rest more same
  simpa [fields, and_assoc] using same

theorem Value.delimited_fields : DelimitedItem Value.fields := by
  intro value other mark otherMark rest more same
  simpa [fields, Field.words, eq_iff, and_assoc] using same

theorem delimited_armFields (type : ValueType) : DelimitedItem (armFields type) := by
  intro arm other mark otherMark rest more same
  simpa [armFields, Field.words, Prod.ext_iff, and_assoc] using same

theorem Value.delimited_enclosed : Delimited (Field.enclosed Value.fields) := by
  apply Value.delimited_fields.enclosed
  intro value mark rest more same
  simp [fields, Field.words, ValueType.text_ne] at same

theorem ValueType.delimited_enclosed : Delimited (Field.enclosed ValueType.fields) := by
  apply ValueType.delimited_fields.enclosed
  intro type mark rest more same
  simp [fields, ValueType.text_ne] at same

/-- The third, fourth and fifth word of a line tell which instruction it is. -/
theorem Listing.Line.delimited_fields : Delimited Line.fields := by
  intro line other rest more same
  cases line <;> cases other <;>
    simp [fields, Field.words, ValueType.text_ne, ValueType.ne_text, Value.eq_iff] at same ⊢
  case call.call =>
    obtain ⟨sameId, sameType, sameCallee, enclosed⟩ := same
    obtain ⟨rfl, ends⟩ := Value.delimited_enclosed enclosed
    simp_all
  case perform.perform =>
    obtain ⟨sameCallee, enclosed⟩ := same
    obtain ⟨rfl, ends⟩ := Value.delimited_enclosed enclosed
    simp_all
  all_goals simp [same]

theorem Terminator.foreign_fields (terminator : Terminator) (rest : List Field) :
    Foreign Listing.Line.fields (terminator.fields ++ rest) := by
  intro line more same
  rcases terminator with _ | _ | _ | (_ | _) | _ <;> cases line <;>
    simp [fields, Listing.Line.fields, Field.words, ValueType.ne_text] at same

/-- The arms of a switch end where its bracket is closed. -/
theorem delimited_arms (type : ValueType) :
    Delimited fun arms => Field.listed (armFields type) .blank arms ++ [⟨"]", .lineEnd⟩] := by
  apply (delimited_armFields type).several (by decide) rfl (fun _ _ => rfl)
  intro arm mark rest more same
  simp [Field.listed, armFields, Field.words] at same

/-- The third and the fourth word of a line tell which terminator it is. -/
theorem Terminator.delimited_fields : Delimited Terminator.fields := by
  intro terminator other rest more same
  rcases terminator with _ | _ | _ | (_ | _) | _ <;> rcases other with _ | _ | _ | (_ | _) | _ <;>
    simp [fields, Field.words, ValueType.text_ne, ValueType.ne_text, Value.eq_iff] at same ⊢
  case switch.switch scrutinee arms default second others otherDefault =>
    obtain ⟨sameType, sameId, sameDefault, listed⟩ := same
    rw [sameType] at listed
    obtain ⟨rfl, ends⟩ := delimited_arms second.type (by simpa using listed)
    simp_all
  all_goals simp [same]

namespace Listing

/-- The mark behind the first word of a block tells that it is not the end of a function. -/
theorem Block.foreign_closing (rest : List Field) :
    Foreign Block.fields (⟨"\x7d", .lineEnd⟩ :: rest) := by
  intro block more same
  simp [fields] at same

theorem Block.delimited_fields : Delimited Block.fields := by
  intro block other rest more same
  obtain ⟨id, label, lines, terminator⟩ := block
  obtain ⟨otherId, otherLabel, otherLines, otherTerminator⟩ := other
  have heads : id = otherId ∧ label = otherLabel ∧
      lines.flatMap Line.fields ++ (terminator.fields ++ rest) =
        otherLines.flatMap Line.fields ++ (otherTerminator.fields ++ more) := by
    cases label <;> cases otherLabel <;> simp [fields, Field.words] at same ⊢
    all_goals exact same
  obtain ⟨rfl, rfl, code⟩ := heads
  -- No line starts like a terminator, so the lines end where the terminator begins.
  obtain ⟨rfl, ends⟩ := Line.delimited_fields.flatMap (terminator.foreign_fields rest)
    (otherTerminator.foreign_fields more) code
  obtain ⟨rfl, tails⟩ := Terminator.delimited_fields ends
  exact ⟨rfl, tails⟩

theorem Function.delimited_fields : Delimited Function.fields := by
  intro function other rest more same
  obtain ⟨name, parameters, resultType, several, blocks⟩ := function
  obtain ⟨otherName, otherParameters, otherResultType, otherSeveral, otherBlocks⟩ := other
  simp [fields, Field.words] at same
  obtain ⟨rfl, rfl, header⟩ := same
  obtain ⟨rfl, behind⟩ := Value.delimited_enclosed header
  have remarks : several = otherSeveral ∧
      blocks.flatMap Block.fields ++ (⟨"\x7d", .lineEnd⟩ :: rest) =
        otherBlocks.flatMap Block.fields ++ (⟨"\x7d", .lineEnd⟩ :: more) := by
    cases several <;> cases otherSeveral <;> simp at behind ⊢
    all_goals exact behind
  obtain ⟨rfl, body⟩ := remarks
  obtain ⟨rfl, ends⟩ := Block.delimited_fields.flatMap (Block.foreign_closing rest)
    (Block.foreign_closing more) body
  exact ⟨rfl, (List.cons_eq_cons.mp ends).2⟩

theorem External.delimited_fields : Delimited External.fields := by
  intro external other rest more same
  obtain ⟨name, parameters, result, effects⟩ := external
  obtain ⟨otherName, otherParameters, otherResult, otherEffects⟩ := other
  simp [fields, Field.words] at same
  obtain ⟨rfl, rfl, header⟩ := same
  obtain ⟨rfl, behind⟩ := ValueType.delimited_enclosed header
  have remarks : effects = otherEffects ∧ rest = more := by
    cases effects <;> cases otherEffects <;> simp [Field.words] at behind ⊢
    case nil.nil => exact behind
    case cons.cons => simpa using Field.words_inj behind
  obtain ⟨rfl, ends⟩ := remarks
  exact ⟨rfl, ends⟩

theorem sectionFields_cons {α : Type} (write : α → List Field) (part : α) (parts : List α) :
    sectionFields write (part :: parts) =
      ⟨"", .lineEnd⟩ :: (write part ++ parts.flatMap write) := rfl

/-- A section ends where neither a further part of it nor a section of its kind begins. -/
theorem sectionFields_inj {α : Type} {write : α → List Field} (delimited : Delimited write)
    {parts others : List α} {rest more : List Field} (ends : Foreign write rest)
    (otherEnds : Foreign write more) (apart : Foreign (fun part => ⟨"", .lineEnd⟩ :: write part) rest)
    (otherApart : Foreign (fun part => ⟨"", .lineEnd⟩ :: write part) more)
    (same : sectionFields write parts ++ rest = sectionFields write others ++ more) :
    parts = others ∧ rest = more := by
  cases parts with
  | nil =>
      cases others with
      | nil => exact ⟨rfl, same⟩
      | cons other others =>
          rw [sectionFields_cons, List.cons_append, List.append_assoc] at same
          exact absurd same.symm (apart other _)
  | cons part parts =>
      cases others with
      | nil =>
          rw [sectionFields_cons, List.cons_append, List.append_assoc] at same
          exact absurd same (otherApart part _)
      | cons other others => exact delimited.flatMap ends otherEnds (List.cons_eq_cons.mp same).2

theorem External.foreign_functions (functions : List Function) :
    Foreign External.fields (functions.flatMap Function.fields) ∧
      Foreign (fun external : External => ⟨"", .lineEnd⟩ :: external.fields)
        (functions.flatMap Function.fields) := by
  constructor <;> intro external rest same <;> cases functions <;>
    simp [fields, Function.fields, Field.words] at same

theorem foreign_globals (externals : List External) (functions : List Function) :
    Foreign GlobalSlot.fields (sectionFields External.fields externals ++
        functions.flatMap Function.fields) ∧
      Foreign (fun global : GlobalSlot => ⟨"", .lineEnd⟩ :: global.fields)
        (sectionFields External.fields externals ++ functions.flatMap Function.fields) := by
  constructor <;> intro global rest same <;> cases externals <;> cases functions <;>
    simp [GlobalSlot.fields, sectionFields, External.fields, Function.fields, Field.words,
      ValueType.ne_text] at same

end Listing

theorem GlobalSlot.delimited_fields : Delimited GlobalSlot.fields := by
  intro global other rest more same
  cases global
  cases other
  simpa [fields, Field.words] using same

/-- The words of a listing tell all that it says. -/
theorem Listing.fields_injective : Function.Injective fields := by
  intro listing other same
  obtain ⟨name, globals, externals, functions⟩ := listing
  obtain ⟨otherName, otherGlobals, otherExternals, otherFunctions⟩ := other
  have sections : name = otherName ∧ sectionFields GlobalSlot.fields globals ++
        (sectionFields External.fields externals ++ functions.flatMap Function.fields) =
      sectionFields GlobalSlot.fields otherGlobals ++
        (sectionFields External.fields otherExternals ++ otherFunctions.flatMap Function.fields) := by
    simpa [fields, Field.words] using same
  obtain ⟨rfl, behindName⟩ := sections
  obtain ⟨ends, apart⟩ := foreign_globals externals functions
  obtain ⟨otherEnds, otherApart⟩ := foreign_globals otherExternals otherFunctions
  obtain ⟨rfl, behindGlobals⟩ :=
    sectionFields_inj GlobalSlot.delimited_fields ends otherEnds apart otherApart behindName
  obtain ⟨ends, apart⟩ := External.foreign_functions functions
  obtain ⟨otherEnds, otherApart⟩ := External.foreign_functions otherFunctions
  obtain ⟨rfl, behindExternals⟩ :=
    sectionFields_inj External.delimited_fields ends otherEnds apart otherApart behindGlobals
  have nothing : Foreign Function.fields [] := by
    intro function rest
    simp [Function.fields]
  obtain ⟨rfl, -⟩ := Function.delimited_fields.flatMap nothing nothing (by simpa using behindExternals)
  rfl

/-! ## Names -/

/-- Fields whose words no mark divides. -/
def Field.AreWords (fields : List Field) : Prop :=
  ∀ field ∈ fields, IsWord field.word

namespace Field

@[simp] theorem areWords_nil : AreWords [] := by
  simp [AreWords]

@[simp] theorem areWords_cons (field : Field) (fields : List Field) :
    AreWords (field :: fields) ↔ IsWord field.word ∧ AreWords fields :=
  List.forall_mem_cons

@[simp] theorem areWords_append (fields more : List Field) :
    AreWords (fields ++ more) ↔ AreWords fields ∧ AreWords more :=
  List.forall_mem_append

theorem areWords_flatMap {α : Type} {write : α → List Field} {parts : List α}
    (each : ∀ part ∈ parts, AreWords (write part)) : AreWords (parts.flatMap write) := by
  intro field member
  obtain ⟨part, isPart, isField⟩ := List.mem_flatMap.mp member
  exact each part isPart field isField

theorem areWords_words {words : List String} (each : ∀ word ∈ words, IsWord word) (last : Mark) :
    AreWords (Field.words last words) := by
  induction words with
  | nil => simp [Field.words]
  | cons word words ih =>
      rw [List.forall_mem_cons] at each
      cases words with
      | nil => simp [Field.words, each.1]
      | cons next words => simp [Field.words, each.1, ih each.2]

theorem areWords_listed {α : Type} {item : α → Mark → List Field}
    (each : ∀ entry mark, AreWords (item entry mark)) (last : Mark) (items : List α) :
    AreWords (listed item last items) := by
  induction items with
  | nil => simp [listed]
  | cons first items ih =>
      cases items with
      | nil => exact each first last
      | cons next items => simp +decide [listed, each, ih]

theorem areWords_enclosed {α : Type} {item : α → Mark → List Field}
    (each : ∀ entry mark, AreWords (item entry mark)) (items : List α) :
    AreWords (enclosed item items) := by
  cases items with
  | nil => simp +decide [enclosed]
  | cons first items => exact areWords_listed each _ _

end Field

@[simp] theorem ValueType.areWords_fields (type : ValueType) (mark : Mark) :
    Field.AreWords (type.fields mark) := by
  simp [fields]

@[simp] theorem Value.areWords_fields (value : Value) (mark : Mark) :
    Field.AreWords (value.fields mark) := by
  simp [fields, Field.words]

theorem areWords_armFields (type : ValueType) (arm : Nat × BlockId) (mark : Mark) :
    Field.AreWords (armFields type arm mark) := by
  simp +decide [armFields, Field.words]

theorem Terminator.areWords_fields (terminator : Terminator) : Field.AreWords terminator.fields := by
  rcases terminator with _ | _ | ⟨scrutinee, _, _⟩ | (_ | _) | _ <;>
    simp +decide [fields, Field.words, Field.areWords_listed (areWords_armFields _)]

namespace Listing

/-- The names in a line are words. -/
def Line.Named : Line → Prop
  | reserve _ _ remark => IsWord remark
  | call _ callee _ | perform callee _ => IsWord callee
  | const _ _ | load _ _ | store _ _ | testNonZero _ _ => True

theorem Line.Named.areWords {line : Line} (named : line.Named) : Field.AreWords line.fields := by
  have arguments := Field.areWords_enclosed Value.areWords_fields
  cases line <;> simp +decide [Named, fields, Field.words, arguments] at named ⊢
  all_goals exact named

/-- The names in a block are words. -/
structure Block.Named (block : Block) : Prop where
  label : ∀ label ∈ block.label, IsWord label
  lines : ∀ line ∈ block.lines, line.Named

theorem Block.Named.areWords {block : Block} (named : block.Named) : Field.AreWords block.fields := by
  have lines := Field.areWords_flatMap fun line member => (named.lines line member).areWords
  have label := named.label
  unfold fields
  cases isLabel : block.label <;>
    simp +decide [isLabel, Field.words, lines, Terminator.areWords_fields] at label ⊢
  exact label

/-- The names in a function are words. -/
structure Function.Named (function : Function) : Prop where
  name : IsWord function.name
  blocks : ∀ block ∈ function.blocks, block.Named

theorem Function.Named.areWords {function : Function} (named : function.Named) :
    Field.AreWords function.fields := by
  have blocks := Field.areWords_flatMap fun block member => (named.blocks block member).areWords
  have parameters := Field.areWords_enclosed Value.areWords_fields function.parameters
  unfold fields
  cases function.several <;> simp +decide [Field.words, named.name, blocks, parameters]

/-- The names and the remarks in a builtin are words. -/
structure External.Named (external : External) : Prop where
  name : IsWord external.name
  effects : ∀ word ∈ external.effects, IsWord word

theorem External.Named.areWords {external : External} (named : external.Named) :
    Field.AreWords external.fields := by
  have parameters := Field.areWords_enclosed ValueType.areWords_fields external.parameters
  have effects := named.effects
  unfold fields
  cases areEffects : external.effects with
  | nil => simp +decide [Field.words, named.name, parameters]
  | cons first rest =>
      rw [areEffects] at effects
      have remark := Field.areWords_words effects .lineEnd
      simp +decide [Field.words, named.name, parameters, remark]

/-- The names in a listing are words. -/
structure Named (listing : Listing) : Prop where
  name : IsWord listing.name
  externals : ∀ external ∈ listing.externals, external.Named
  functions : ∀ function ∈ listing.functions, function.Named

theorem Named.areWords {listing : Listing} (named : listing.Named) : Field.AreWords listing.fields := by
  have functions := Field.areWords_flatMap fun function member => (named.functions function member).areWords
  have externals := Field.areWords_flatMap fun external member => (named.externals external member).areWords
  have globals : Field.AreWords (listing.globals.flatMap GlobalSlot.fields) :=
    Field.areWords_flatMap fun global _ => by simp +decide [GlobalSlot.fields, Field.words]
  have inSection {α : Type} {write : α → List Field} {parts : List α}
      (areWords : Field.AreWords (parts.flatMap write)) : Field.AreWords (sectionFields write parts) := by
    cases parts with
    | nil => simp [sectionFields]
    | cons part parts => simpa +decide [sectionFields] using areWords
  simp +decide [fields, Field.words, named.name, functions, inSection externals, inSection globals]

end Listing

end YulLowering.Ir
