import YulLowering.Proofs.Listing.Lines

/-!
# Listings of modules

The text of a module consists of the words of what its listing says. Where all names are words, equal texts
therefore come from listings that say the same.
-/

namespace YulLowering.Ir

/-! ## What is shown -/

/-- The remark behind the reservation of a slot. -/
def Function.remark (function : Function) (slot : LocalId) : String :=
  ((function.local? slot).map LocalSlot.name).getD "?"

/-- What is shown of an instruction. -/
def Instruction.line (nameOf : FunctionId → Option String) (function : Function) :
    Instruction → Listing.Line
  | const dest constant => .const dest constant
  | reserve slot type => .reserve slot type (function.remark slot)
  | load dest slot => .load dest slot
  | store slot value => .store slot value
  | call (some dest) callee arguments => .call dest (callee.text nameOf) arguments
  | call none callee arguments => .perform (callee.text nameOf) arguments
  | testNonZero dest operand => .testNonZero dest.id operand

/-- What is shown of a block. -/
def BasicBlock.listing (nameOf : FunctionId → Option String) (function : Function)
    (block : BasicBlock) : Listing.Block :=
  ⟨block.id, block.label, block.instructions.map (Instruction.line nameOf function), block.terminator⟩

/-- What is shown of a function. -/
def Function.listing (nameOf : FunctionId → Option String) (function : Function) : Listing.Function where
  name := function.name
  parameters := function.parameters
  resultType := function.resultType
  several := if function.resultCount > 1 then some function.resultCount else none
  blocks := function.blocks.map (BasicBlock.listing nameOf function)

/-- The words for effects, in a fixed order. -/
def Effects.words (effects : Effects) : List String :=
  (if effects.movable then ["movable"] else []) ++
    (if effects.sideEffectFree then ["side_effect_free"]
      else if effects.sideEffectFreeIfNoMsize then ["side_effect_free_if_no_msize"] else []) ++
    (if effects.invalidatesStorage then ["invalidates_storage"] else []) ++
    (if effects.invalidatesMemory then ["invalidates_memory"] else [])

/-- What is shown of a builtin. -/
def External.listing (external : External) : Listing.External :=
  ⟨external.name, external.parameters, external.results.head?.getD .void, external.effects.words⟩

/-- The names of functions by number. -/
def Module.functionName? (module : Module) (id : FunctionId) : Option String :=
  (module.function? id).map Function.name

/-- What is shown of a module. -/
def Module.listing (module : Module) : Listing where
  name := module.name
  globals := module.globals
  externals := module.externals.map External.listing
  functions := module.functions.map (Function.listing module.functionName?)

/-! ## Texts -/

/-- The characters of several fields. -/
def Field.text (fields : List Field) : List Char :=
  fields.flatMap chars

namespace Field

@[simp] theorem text_nil : text [] = [] := rfl

@[simp] theorem text_cons (field : Field) (fields : List Field) :
    text (field :: fields) = field.word.toList ++ field.mark.char :: text fields := by
  simp [text, chars]

@[simp] theorem text_append (fields more : List Field) :
    text (fields ++ more) = text fields ++ text more := by
  simp [text]

@[simp] theorem text_flatMap {α : Type} (write : α → List Field) (parts : List α) :
    text (parts.flatMap write) = parts.flatMap fun part => text (write part) := by
  simp [text, List.flatMap_assoc]

/-- Items with commas and blanks between them, as they are written. -/
theorem text_listed {α : Type} {item : α → Mark → List Field} {write : α → String}
    (writes : ∀ entry mark, text (item entry mark) = (write entry).toList ++ [mark.char]) (last : Mark)
    (first : α) (items : List α) :
    text (listed item last (first :: items)) =
      (commaSeparated ((first :: items).map write)).toList ++ [last.char] := by
  induction items generalizing first with
  | nil => simp [listed, writes, commaSeparated]
  | cons next items ih =>
      have rest := ih next
      simp only [commaSeparated, List.map_cons] at rest
      simp [listed, writes, rest, commaSeparated, Mark.char]

theorem text_enclosed {α : Type} {item : α → Mark → List Field} {write : α → String}
    (writes : ∀ entry mark, text (item entry mark) = (write entry).toList ++ [mark.char])
    (items : List α) :
    text (enclosed item items) = (commaSeparated (items.map write)).toList ++ [')'] := by
  cases items with
  | nil => rfl
  | cons first items => exact text_listed writes .closing first items

end Field

theorem Value.text_fields (value : Value) (mark : Mark) :
    Field.text (value.fields mark) = value.text.toList ++ [mark.char] := by
  simp [fields, Field.words, text, toString, Mark.char]

theorem ValueType.text_fields (type : ValueType) (mark : Mark) :
    Field.text (type.fields mark) = type.text.toList ++ [mark.char] := by
  simp [fields]

theorem Instruction.text_line (nameOf : FunctionId → Option String) (function : Function)
    (instruction : Instruction) :
    Field.text (instruction.line nameOf function).fields =
      (s!"  {instruction.text nameOf function}\n").toList := by
  cases instruction with
  | call dest callee arguments =>
      cases dest <;>
        simp [line, Listing.Line.fields, text, Field.words, Mark.char, toString,
          Field.text_enclosed Value.text_fields]
  | const | reserve | load | store | testNonZero =>
      simp [line, Listing.Line.fields, text, Field.words, Mark.char, toString, Value.text,
        Function.remark]

/-- Arms are written with the blanks in front of them. -/
theorem intercalate_indented (first : String) (texts : List String) :
    ",".intercalate ((first :: texts).map (" " ++ ·)) = " " ++ commaSeparated (first :: texts) := by
  induction texts generalizing first with
  | nil => simp [commaSeparated]
  | cons next texts ih =>
      have rest := ih next
      simp only [commaSeparated, List.map_cons] at rest ⊢
      rw [String.intercalate_cons_cons, String.intercalate_cons_cons, rest]
      simp [← String.toList_inj]

theorem Terminator.text_fields (terminator : Terminator) :
    Field.text terminator.fields = (s!"  {terminator.text}\n").toList := by
  cases terminator with
  | ret value =>
      cases value <;> simp [fields, text, Field.words, Mark.char, toString, Value.text]
  | switch scrutinee arms default =>
      let write (arm : Nat × BlockId) : String := s!"{scrutinee.type.text} {arm.1}, label %{arm.2.text}"
      have writes (arm : Nat × BlockId) (mark : Mark) :
          Field.text (armFields scrutinee.type arm mark) = (write arm).toList ++ [mark.char] := by
        simp [armFields, Field.words, write, Mark.char, toString]
      have printed : (switch scrutinee arms default).text =
          s!"switch {scrutinee.text}, label %{default.text} [" ++
            ",".intercalate ((arms.map write).map (" " ++ ·)) ++ " ]" := by
        have indented : (fun (arm : Nat × BlockId) =>
            s!" {scrutinee.type.text} {arm.1}, label %{arm.2.text}") = (" " ++ ·) ∘ write := by
          funext arm
          simp [write, toString, String.append_assoc]
        rw [List.map_map, ← indented]
        rfl
      rw [printed]
      cases arms with
      | nil => simp [fields, Field.words, Field.listed, Mark.char, toString, Value.text]
      | cons arm arms =>
          rw [List.map_cons, intercalate_indented]
          simp [fields, Field.words, Field.text_listed writes, Mark.char, toString, Value.text]
  | jump | branch | unreachable =>
      simp [fields, text, Field.words, Mark.char, toString, Value.text]

theorem BasicBlock.text_listing (nameOf : FunctionId → Option String) (function : Function)
    (block : BasicBlock) :
    Field.text (block.listing nameOf function).fields = (block.text nameOf function).toList := by
  obtain ⟨id, label, instructions, terminator⟩ := block
  cases label <;>
    simp [listing, Listing.Block.fields, text, Field.words, Mark.char, toString,
      Instruction.text_line, Terminator.text_fields, String.toList_join, List.flatMap_map]

theorem Function.text_listing (nameOf : FunctionId → Option String) (function : Function) :
    Field.text (function.listing nameOf).fields = ("\n" ++ function.textWith nameOf).toList := by
  unfold listing textWith
  split <;>
    simp [Listing.Function.fields, Field.words, Mark.char, toString, BasicBlock.text_listing,
      String.toList_join, List.flatMap_map, Field.text_enclosed Value.text_fields]

theorem Effects.isEmpty_text (effects : Effects) : effects.text.isEmpty = effects.words.isEmpty := by
  obtain ⟨_ | _, _ | _, _ | _, _ | _, _ | _⟩ := effects <;> rfl

theorem Field.text_words (words : List String) (last : Mark) (first : String) :
    text (Field.words last (first :: words)) =
      (" ".intercalate (first :: words)).toList ++ [last.char] := by
  induction words generalizing first with
  | nil => simp [Field.words]
  | cons next words ih => simp [Field.words, ih, Mark.char]

/-- What a builtin gives back, as it is written. -/
def External.resultText (external : External) : String :=
  match external.results with
  | [] => "void"
  | [single] => single.text
  | several => "\x7b" ++ commaSeparated (several.map ValueType.text) ++ "\x7d"

theorem External.resultText_eq {external : External} (few : external.results.length ≤ 1) :
    external.resultText = (external.results.head?.getD .void).text := by
  obtain ⟨name, parameters, results, effects⟩ := external
  rcases results with _ | ⟨single, _ | _⟩
  · rfl
  · rfl
  · simp at few

theorem External.text_listing {external : External} (few : external.results.length ≤ 1) :
    Field.text external.listing.fields = (s!"{external.text}\n").toList := by
  let effects := " ".intercalate external.effects.words
  let parameters := commaSeparated (external.parameters.map ValueType.text)
  have isText : external.text =
      s!"declare {external.resultText} @{external.name}({parameters})" ++
        (if external.effects.words.isEmpty then "" else s!" ; {effects}") := by
    rw [← Effects.isEmpty_text]
    rfl
  rw [isText, resultText_eq few]
  cases shown : external.effects.words with
  | nil =>
      simp [listing, Listing.External.fields, shown, Field.words, Mark.char, toString,
        Field.text_enclosed ValueType.text_fields, parameters]
  | cons first rest =>
      simp [listing, Listing.External.fields, shown, Field.words, Field.text_words, Mark.char, toString,
        Field.text_enclosed ValueType.text_fields, parameters, effects]

theorem GlobalSlot.text_fields (global : GlobalSlot) :
    Field.text global.fields = (s!"{(Slot.ofGlobal global.id).text} = global\n").toList := by
  simp [fields, Field.words, Mark.char, toString]

/-- Lines of several parts. -/
theorem Field.text_parts {α β : Type} {write : β → List Field} {shown : α → β} {line : α → String}
    {parts : List α} (writes : ∀ part ∈ parts, text (write (shown part)) = (line part).toList) :
    text ((parts.map shown).flatMap write) = (String.join (parts.map line)).toList := by
  induction parts with
  | nil => rfl
  | cons part parts ih =>
      rw [List.forall_mem_cons] at writes
      simp only [List.map_cons, List.flatMap_cons, String.join_cons, String.toList_append, text_append,
        writes.1, ih writes.2]

theorem Listing.text_sectionFields {α β : Type} {write : β → List Field} {shown : α → β}
    {line : α → String} {parts : List α}
    (writes : ∀ part ∈ parts, Field.text (write (shown part)) = (line part).toList) :
    Field.text (sectionFields write (parts.map shown)) =
      (if (parts.map line).isEmpty then "" else "\n" ++ String.join (parts.map line)).toList := by
  cases parts with
  | nil => rfl
  | cons part parts =>
      have lines := Field.text_parts writes
      rw [List.map_cons, List.flatMap_cons] at lines
      simp [sectionFields_cons, lines, Mark.char]

/-- The text of a module is what its listing says, word by word. -/
theorem Module.text_listing {module : Module}
    (few : ∀ external ∈ module.externals, external.results.length ≤ 1) :
    Field.text module.listing.fields = module.text.toList := by
  have globals := @Listing.text_sectionFields _ _ GlobalSlot.fields id _ module.globals
    fun global _ => GlobalSlot.text_fields global
  rw [List.map_id] at globals
  have externals := Listing.text_sectionFields fun external member =>
    External.text_listing (few external member)
  have functions := Field.text_parts fun function (_ : function ∈ module.functions) =>
    Function.text_listing module.functionName? function
  unfold text listing Listing.fields
  rw [Field.text_append, Field.text_append, Field.text_append, globals, externals, functions]
  simp [Field.words, Mark.char, toString]
  rfl

/-- Where names are words, equal texts come from modules of which the same is shown. -/
theorem Module.listing_eq_of_text_eq {module other : Module}
    (few : ∀ external ∈ module.externals, external.results.length ≤ 1)
    (otherFew : ∀ external ∈ other.externals, external.results.length ≤ 1)
    (named : module.listing.Named) (otherNamed : other.listing.Named)
    (same : module.text = other.text) : module.listing = other.listing := by
  apply Listing.fields_injective
  apply Field.eq_of_chars_eq named.areWords otherNamed.areWords
  show Field.text module.listing.fields = Field.text other.listing.fields
  rw [text_listing few, text_listing otherFew, same]

end YulLowering.Ir
