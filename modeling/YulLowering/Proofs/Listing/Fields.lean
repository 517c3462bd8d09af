import YulLowering.Ir.Listing

/-!
# Words of a listing

A listing is a sequence of words, each with the character that ends it. Names and numbers hold none of these
characters, so the characters of a listing tell what its words are, and the words tell where one part of the
listing ends and the next one begins.
-/

namespace YulLowering.Ir

/-- The characters that end words. -/
inductive Mark where
  | blank
  | lineEnd
  | comma
  | colon
  | opening
  | closing
deriving DecidableEq, Repr

/-- A mark as it is written. -/
def Mark.char : Mark → Char
  | blank => ' '
  | lineEnd => '\n'
  | comma => ','
  | colon => ':'
  | opening => '('
  | closing => ')'

theorem Mark.char_inj {mark other : Mark} (same : mark.char = other.char) : mark = other := by
  cases mark <;> cases other <;> first | rfl | cases same

/-- A text that no mark divides. -/
def IsWord (text : String) : Prop :=
  ∀ mark : Mark, mark.char ∉ text.toList

theorem isWord_iff {text : String} :
    IsWord text ↔ ∀ mark ∈ [Mark.blank, .lineEnd, .comma, .colon, .opening, .closing],
      mark.char ∉ text.toList := by
  constructor
  · intro isWord mark _
    exact isWord mark
  · intro apart mark
    apply apart
    cases mark <;> simp

instance (text : String) : Decidable (IsWord text) :=
  decidable_of_iff' _ isWord_iff

@[simp] theorem isWord_append {text more : String} :
    IsWord (text ++ more) ↔ IsWord text ∧ IsWord more := by
  simp [IsWord, forall_and]

/-- A text of characters none of which is a mark. -/
theorem IsWord.of_all {text : String} {accepts : Char → Bool} (all : text.toList.all accepts = true)
    (apart : ∀ mark : Mark, accepts mark.char = false) : IsWord text := by
  intro mark member
  have accepted := List.all_eq_true.mp all _ member
  rw [apart mark] at accepted
  cases accepted

/-- Letters, digits, underlines, dots and dollar signs make words. -/
theorem IsWord.of_alphanumeric {text : String}
    (all : text.toList.all (fun char => char.isAlphanum || ['_', '.', '$'].contains char) = true) :
    IsWord text := by
  apply IsWord.of_all all
  intro mark
  cases mark <;> decide

/-! ## Numbers and types as words -/

/-- Numbers are told apart by their digits. -/
@[simp] theorem toDigits_inj {number other : Nat} :
    Nat.toDigits 10 number = Nat.toDigits 10 other ↔ number = other := by
  constructor
  · intro same
    have values := congrArg (Nat.ofDigitChars 10 · 0) same
    simpa [Nat.ofDigitChars_ten_toDigits] using values
  · exact congrArg _

@[simp] theorem isWord_repr (number : Nat) : IsWord number.repr := by
  have digits : number.repr.toList.all Char.isDigit = true := by
    simpa using fun char member => Nat.isDigit_of_mem_toDigits (by decide) (by decide) member
  apply IsWord.of_all digits
  intro mark
  cases mark <;> decide

@[simp] theorem repr_inj {number other : Nat} : number.repr = other.repr ↔ number = other := by
  simp [← String.toList_inj]

@[simp] theorem ValueId.isWord_text (id : ValueId) : IsWord id.text := by
  simp +decide [text, toString]

@[simp] theorem BlockId.isWord_text (id : BlockId) : IsWord id.text := by
  simp +decide [text, toString]

@[simp] theorem ValueType.isWord_text (type : ValueType) : IsWord type.text := by
  cases type <;> simp +decide [text, toString]

@[simp] theorem Slot.isWord_text (slot : Slot) : IsWord slot.text := by
  cases slot <;> simp +decide [text, toString]

@[simp] theorem ValueId.text_inj {id other : ValueId} : id.text = other.text ↔ id = other := by
  cases id
  cases other
  simp [text, toString]

@[simp] theorem BlockId.text_inj {id other : BlockId} : id.text = other.text ↔ id = other := by
  cases id
  cases other
  simp [text, toString]

@[simp] theorem ValueType.text_inj {type other : ValueType} : type.text = other.text ↔ type = other := by
  cases type <;> cases other <;> simp [text, toString, ← String.toList_inj]

@[simp] theorem Slot.text_inj {slot other : Slot} : slot.text = other.text ↔ slot = other := by
  cases slot with
  | ofLocal id => cases other with
    | ofLocal id' => cases id; cases id'; simp [text, toString, ← String.toList_inj]
    | ofGlobal => simp [text, toString, ← String.toList_inj]
  | ofGlobal id => cases other with
    | ofLocal => simp [text, toString, ← String.toList_inj]
    | ofGlobal id' => cases id; cases id'; simp [text, toString, ← String.toList_inj]

theorem ValueType.text_ne {type : ValueType} {word : String}
    (apart : word.toList.head? ≠ some 'i' ∧ word.toList.head? ≠ some 'v') : type.text ≠ word := by
  rintro rfl
  cases type <;> simp [text, toString] at apart

theorem ValueType.ne_text {type : ValueType} {word : String}
    (apart : word.toList.head? ≠ some 'i' ∧ word.toList.head? ≠ some 'v') : word ≠ type.text :=
  (text_ne apart).symm

/-- What two values are called and which types they have tells them apart. -/
theorem Value.eq_iff {value other : Value} :
    value = other ↔ value.type = other.type ∧ value.id = other.id := by
  cases value
  cases other
  simp [and_comm]

/-! ## Fields -/

/-- A word and the character that ends it. -/
structure Field where
  word : String
  mark : Mark
deriving DecidableEq, Repr

namespace Field

/-- The characters of a field. -/
def chars (field : Field) : List Char :=
  field.word.toList ++ [field.mark.char]

/-- Words with blanks between them. -/
def words (last : Mark) : List String → List Field
  | [] => []
  | [word] => [⟨word, last⟩]
  | word :: next :: rest => ⟨word, .blank⟩ :: words last (next :: rest)

/-- Items with commas and blanks between them. -/
def listed {α : Type} (item : α → Mark → List Field) (last : Mark) : List α → List Field
  | [] => []
  | [single] => item single last
  | single :: next :: rest => item single .comma ++ ⟨"", .blank⟩ :: listed item last (next :: rest)

/-- Items in parentheses, behind the opening one. -/
def enclosed {α : Type} (item : α → Mark → List Field) : List α → List Field
  | [] => [⟨"", .closing⟩]
  | single :: rest => listed item .closing (single :: rest)

/-- The last of several words is the one with the other mark. -/
theorem words_inj {words others : List String} {first other : String} {rest more : List Field}
    (same : Field.words .lineEnd (first :: words) ++ rest = Field.words .lineEnd (other :: others) ++ more) :
    first :: words = other :: others ∧ rest = more := by
  induction words generalizing first other others with
  | nil => cases others <;> simp_all [Field.words]
  | cons next words ih =>
      cases others with
      | nil => simp [Field.words] at same
      | cons second others =>
          simp only [Field.words, List.cons_append, List.cons.injEq, Field.mk.injEq] at same
          obtain ⟨areWords, ends⟩ := ih same.2
          exact ⟨by rw [same.1.1, areWords], ends⟩

/-- Where words hold no marks, the first mark ends the first word. -/
theorem append_mark_inj {word other : List Char} {mark otherMark : Mark} {rest more : List Char}
    (isWord : ∀ mark : Mark, mark.char ∉ word) (otherIsWord : ∀ mark : Mark, mark.char ∉ other)
    (same : word ++ mark.char :: rest = other ++ otherMark.char :: more) :
    word = other ∧ mark = otherMark ∧ rest = more := by
  induction word generalizing other with
  | nil =>
      cases other with
      | nil =>
          obtain ⟨isMark, isRest⟩ := List.cons_eq_cons.mp same
          exact ⟨rfl, Mark.char_inj isMark, isRest⟩
      | cons char other =>
          obtain ⟨rfl, -⟩ := List.cons_eq_cons.mp same
          exact absurd List.mem_cons_self (otherIsWord mark)
  | cons char word ih =>
      cases other with
      | nil =>
          obtain ⟨rfl, -⟩ := List.cons_eq_cons.mp same
          exact absurd List.mem_cons_self (isWord otherMark)
      | cons otherChar other =>
          obtain ⟨rfl, tails⟩ := List.cons_eq_cons.mp same
          obtain ⟨rfl, isMark, isRest⟩ := ih
            (fun mark member => isWord mark (List.mem_cons_of_mem _ member))
            (fun mark member => otherIsWord mark (List.mem_cons_of_mem _ member)) tails
          exact ⟨rfl, isMark, isRest⟩

/-- Characters tell what the fields are. -/
theorem eq_of_chars_eq {fields others : List Field} (areWords : ∀ field ∈ fields, IsWord field.word)
    (otherWords : ∀ field ∈ others, IsWord field.word)
    (same : fields.flatMap chars = others.flatMap chars) : fields = others := by
  induction fields generalizing others with
  | nil =>
      cases others with
      | nil => rfl
      | cons other others => simp [chars] at same
  | cons field fields ih =>
      cases others with
      | nil => simp [chars] at same
      | cons other others =>
          simp only [List.flatMap_cons, chars, List.append_assoc, List.singleton_append] at same
          rw [List.forall_mem_cons] at areWords otherWords
          obtain ⟨word, mark, rest⟩ := append_mark_inj areWords.1 otherWords.1 same
          have first : field = other := by
            cases field
            cases other
            simp_all [String.toList_inj]
          rw [first, ih areWords.2 otherWords.2 rest]

end Field

/-! ## Parts that end by themselves -/

/-- Whatever follows, it can be told where a part ends and what it says. -/
def Delimited {α : Type} (write : α → List Field) : Prop :=
  ∀ ⦃part other : α⦄ ⦃rest more : List Field⦄,
    write part ++ rest = write other ++ more → part = other ∧ rest = more

/-- Fields that do not start with a part. -/
def Foreign {α : Type} (write : α → List Field) (fields : List Field) : Prop :=
  ∀ (part : α) (rest : List Field), write part ++ rest ≠ fields

namespace Delimited

variable {α : Type}

/-- Parts in a row, up to where no further one starts. -/
theorem flatMap {write : α → List Field} (delimited : Delimited write) {parts others : List α}
    {rest more : List Field} (ends : Foreign write rest) (otherEnds : Foreign write more)
    (same : parts.flatMap write ++ rest = others.flatMap write ++ more) :
    parts = others ∧ rest = more := by
  induction parts generalizing others with
  | nil =>
      cases others with
      | nil => exact ⟨rfl, same⟩
      | cons other others =>
          rw [List.flatMap_cons, List.append_assoc] at same
          exact absurd same.symm (ends other _)
  | cons part parts ih =>
      cases others with
      | nil =>
          rw [List.flatMap_cons, List.append_assoc] at same
          exact absurd same (otherEnds part _)
      | cons other others =>
          rw [List.flatMap_cons, List.flatMap_cons, List.append_assoc, List.append_assoc] at same
          obtain ⟨rfl, tails⟩ := delimited same
          obtain ⟨rfl, ends⟩ := ih tails
          exact ⟨rfl, ends⟩

end Delimited

/-- It can be told where an item ends, what it says and which mark is behind it. -/
def DelimitedItem {α : Type} (item : α → Mark → List Field) : Prop :=
  ∀ ⦃entry other : α⦄ ⦃mark otherMark : Mark⦄ ⦃rest more : List Field⦄,
    item entry mark ++ rest = item other otherMark ++ more →
      entry = other ∧ mark = otherMark ∧ rest = more

namespace DelimitedItem

variable {α : Type} {item : α → Mark → List Field}

/-- The last of several items is the one without a comma behind it. -/
theorem listed (delimited : DelimitedItem item) {last : Mark} (apart : last ≠ .comma)
    {items others : List α} {first other : α} {rest more : List Field}
    (same : Field.listed item last (first :: items) ++ rest =
      Field.listed item last (other :: others) ++ more) :
    first :: items = other :: others ∧ rest = more := by
  induction items generalizing first other others with
  | nil =>
      cases others with
      | nil =>
          obtain ⟨rfl, -, ends⟩ := delimited same
          exact ⟨rfl, ends⟩
      | cons next others =>
          rw [Field.listed, Field.listed, List.append_assoc] at same
          exact absurd (delimited same).2.1 apart
  | cons second items ih =>
      cases others with
      | nil =>
          rw [Field.listed, Field.listed, List.append_assoc] at same
          exact absurd (delimited same).2.1.symm apart
      | cons next others =>
          rw [Field.listed, Field.listed, List.append_assoc, List.append_assoc] at same
          obtain ⟨rfl, -, tails⟩ := delimited same
          obtain ⟨isRest, ends⟩ := ih (List.cons_eq_cons.mp tails).2
          exact ⟨by rw [isRest], ends⟩

/-- Where items do not start like what is written if there are none, it can be told whether there are any. -/
theorem several (delimited : DelimitedItem item) {last : Mark} (apart : last ≠ .comma)
    {write : List α → List Field} {none ending : List Field} (nil : write [] = none)
    (cons : ∀ first items, write (first :: items) = Field.listed item last (first :: items) ++ ending)
    (started : ∀ entry mark rest more, item entry mark ++ rest ≠ none ++ more) : Delimited write := by
  have begun {first : α} {items : List α} {rest more : List Field} :
      write (first :: items) ++ rest ≠ write [] ++ more := by
    rw [nil, cons, List.append_assoc]
    cases items with
    | nil => exact started _ _ _ _
    | cons next items =>
        rw [Field.listed, List.append_assoc]
        exact started _ _ _ _
  intro items others rest more same
  cases items with
  | nil =>
      cases others with
      | nil => exact ⟨rfl, List.append_cancel_left same⟩
      | cons other others => exact absurd same.symm begun
  | cons first items =>
      cases others with
      | nil => exact absurd same begun
      | cons other others =>
          rw [cons, cons, List.append_assoc, List.append_assoc] at same
          obtain ⟨areItems, ends⟩ := delimited.listed apart same
          exact ⟨areItems, List.append_cancel_left ends⟩

theorem enclosed (delimited : DelimitedItem item)
    (started : ∀ entry mark rest more, item entry mark ++ rest ≠ ⟨"", .closing⟩ :: more) :
    Delimited (Field.enclosed item) :=
  delimited.several (by decide) rfl (fun _ _ => (List.append_nil _).symm) started

end DelimitedItem

end YulLowering.Ir
