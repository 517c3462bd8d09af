import Mathlib.Data.List.DropRight
import YulLowering.Settings.Loading
import YulLowering.Syntax.Reader

/-!
# No text is both a program and settings

A program begins with a brace, or with a bracket behind which another bracket or brace comes. No line of
settings begins so: a name cannot begin with any of them, and neither can the name in a header.
-/

namespace YulLowering

/-! ## How the text of a program begins -/

@[simp] theorem Json.skipBlanks_skipBlanks (text : List Char) :
    skipBlanks (skipBlanks text) = skipBlanks text :=
  List.dropWhile_idempotent _ _

namespace Json.Reader

variable {α β σ : Type} {text : List Char}

/-- Where two readers in a row succeed, both do. -/
theorem bind_inv {reader : Reader α} {next : α → Reader β} {result : β × List Char}
    (read : (reader >>= next) text = .ok result) :
    ∃ value middle, reader text = .ok (value, middle) ∧ next value middle = .ok result := by
  change (reader text >>= fun (value, middle) => next value middle) = _ at read
  cases first : reader text with
  | error refusal =>
      rw [first] at read
      cases read
  | ok taken =>
      rw [first] at read
      exact ⟨taken.1, taken.2, rfl, read⟩

theorem peek_inv {next : Char} {later : List Char} (read : peek text = .ok (next, later)) :
    skipBlanks text = later ∧ later.head? = some next := by
  unfold peek at read
  split at read
  · cases read
  · next isText =>
    cases read
    exact ⟨isText, rfl⟩

theorem mismatch_ne_ok {fuel : Nat} {result : α × List Char} : mismatch fuel text ≠ .ok result := by
  intro read
  obtain ⟨next, later, -, read⟩ := bind_inv read
  dsimp only at read
  split at read
  · cases read
  · obtain ⟨_, _, -, read⟩ := bind_inv read
    cases read

/-- A container ends at once, or its first item is read. -/
theorem items_inv {closing : Char} {item : σ → Reader σ} {fuel : Nat} {state : σ}
    {result : σ × List Char} (read : items closing item fuel state text = .ok result) :
    (skipBlanks text).head? = some closing ∨
      ∃ entered, item state (skipBlanks text) = .ok entered := by
  obtain ⟨next, later, peeked, read⟩ := bind_inv read
  obtain ⟨rfl, isNext⟩ := peek_inv peeked
  split at read
  · next closes => exact .inl (closes ▸ isNext)
  · obtain ⟨value, middle, entered, -⟩ := bind_inv read
    exact .inr ⟨_, entered⟩

end Json.Reader

namespace Reading

open Json Json.Reader

variable {text : List Char} {fuel depth : Nat}

/-- The next thing is a bracket or a brace, blanks aside. -/
def Bracketed (text : List Char) : Prop :=
  ∃ next, (skipBlanks text).head? = some next ∧ (next = '[' ∨ next = ']' ∨ next = '\x7b')

/-- Items in brackets that can be read make brackets the next thing. -/
theorem bracketed_of_items {σ : Type} {item : σ → Reader σ} {state : σ} {result : σ × List Char}
    (read : items ']' item fuel state text = .ok result)
    (first : ∀ entered, item state (skipBlanks text) = .ok entered → Bracketed (skipBlanks text)) :
    Bracketed text := by
  rcases items_inv read with closes | ⟨entered, read⟩
  · exact ⟨']', closes, .inr (.inl rfl)⟩
  · have inner := first entered read
    rwa [Bracketed, skipBlanks_skipBlanks] at inner

theorem bracketed_of_statement {result : Statement × List Char}
    (read : statement fuel depth text = .ok result) : Bracketed text := by
  obtain ⟨next, later, peeked, read⟩ := bind_inv read
  obtain ⟨rfl, isNext⟩ := peek_inv peeked
  split at read
  · exact ⟨_, isNext, .inl rfl⟩
  · exact ⟨_, isNext, .inl rfl⟩
  · exact ⟨_, isNext, .inr (.inr rfl)⟩
  · exact ⟨_, isNext, .inr (.inr rfl)⟩
  · exact absurd read mismatch_ne_ok

theorem head_of_statements {result : Block × List Char}
    (read : statements fuel depth text = .ok result) :
    (skipBlanks text).head? = some '[' ∧ Bracketed (skipBlanks text).tail := by
  obtain ⟨next, later, peeked, read⟩ := bind_inv read
  obtain ⟨rfl, isNext⟩ := peek_inv peeked
  split at read
  · cases read
  · obtain ⟨_, _, advanced, read⟩ := bind_inv read
    cases advanced
    refine ⟨isNext, bracketed_of_items read fun entered read => ?_⟩
    obtain ⟨_, _, read, -⟩ := bind_inv read
    exact bracketed_of_statement read
  · exact absurd read mismatch_ne_ok

theorem head_of_blockElement {result : Option Block × List Char}
    (read : blockElement fuel depth none text = .ok result) :
    (skipBlanks text).head? = some '[' ∧ Bracketed (skipBlanks text).tail := by
  rw [blockElement, map_eq_pure_bind] at read
  obtain ⟨_, _, read, -⟩ := bind_inv read
  exact head_of_statements read

/-- How the text of a program begins once its blanks are dropped. Behind two opening brackets there is
one more bracket or a brace. -/
inductive BeginsProgram (text : List Char) : Prop where
  | object (head : text.head? = some '\x7b')
  | array (head : text.head? = some '[') (inner : Bracketed text.tail)
      (nested : (skipBlanks text.tail).head? = some '[' → Bracketed (skipBlanks text.tail).tail)

theorem beginsProgram_of_block {result : Block × List Char} (read : block fuel depth text = .ok result) :
    BeginsProgram (skipBlanks text) := by
  obtain ⟨next, later, peeked, read⟩ := bind_inv read
  obtain ⟨rfl, isNext⟩ := peek_inv peeked
  split at read
  · cases read
  · obtain ⟨_, _, advanced, read⟩ := bind_inv read
    cases advanced
    obtain ⟨_, _, read, -⟩ := bind_inv read
    refine .array isNext
      (bracketed_of_items read fun _ read => ⟨_, (head_of_blockElement read).1, .inl rfl⟩) ?_
    intro opens
    rcases items_inv read with closes | ⟨_, read⟩
    · rw [opens] at closes
      cases closes
    · have inner := (head_of_blockElement read).2
      rwa [skipBlanks_skipBlanks] at inner
  · cases read
  · exact .object isNext
  · exact absurd read mismatch_ne_ok

end Reading

theorem Block.beginsProgram_of_read {text : String} {program : Block} (read : Block.read text = .ok program) :
    Reading.BeginsProgram (Json.skipBlanks text.toList) := by
  unfold Block.read Json.Reader.whole at read
  dsimp only at read
  split at read
  · cases read
  · next taken => exact Reading.beginsProgram_of_block taken

/-! ## How the lines of settings begin -/

namespace Toml.Reader

open Json (skipBlanks)

variable {α β : Type} {text : List Char} {fuel : Nat}

theorem bind_inv {reader : Reader α} {next : α → Reader β} {result : β × List Char}
    (read : (reader >>= next) text = some result) :
    ∃ value middle, reader text = some (value, middle) ∧ next value middle = some result := by
  change (reader text >>= fun (value, middle) => next value middle) = _ at read
  cases first : reader text with
  | none =>
      rw [first] at read
      cases read
  | some taken =>
      rw [first] at read
      exact ⟨taken.1, taken.2, rfl, read⟩

/-- What is a blank here is one there. -/
theorem skipBlanks_dropWhile (text : List Char) : skipBlanks (text.dropWhile isBlank) = skipBlanks text := by
  induction text with
  | nil => rfl
  | cons next rest ih =>
      rw [List.dropWhile_cons]
      split
      · next blank =>
        have also : Json.isBlank next = true := by
          simp only [isBlank, Bool.or_eq_true, beq_iff_eq] at blank
          rcases blank with rfl | rfl <;> rfl
        rw [ih, skipBlanks, skipBlanks, List.dropWhile_cons_of_pos also]
      · rfl

/-- Behind the blanks of a line there is the end of the line, or what any reader would see. -/
theorem head_dropWhile {text : List Char} {next : Char} (head : (skipBlanks text).head? = some next) :
    (text.dropWhile isBlank).head? = some '\n' ∨ (text.dropWhile isBlank).head? = some '\r' ∨
      text.dropWhile isBlank = skipBlanks text := by
  rw [← skipBlanks_dropWhile text] at head ⊢
  have visible := List.head?_dropWhile_not isBlank text
  cases front : text.dropWhile isBlank with
  | nil =>
      rw [front] at head
      cases head
  | cons first rest =>
      rw [front] at visible
      cases blank : Json.isBlank first with
      | false => exact .inr (.inr (List.dropWhile_cons_of_neg (by simp [blank])).symm)
      | true =>
          simp only [List.head?_cons, isBlank, Bool.or_eq_false_iff, beq_eq_false_iff_ne] at visible
          simp only [Json.isBlank, Bool.or_eq_true, beq_iff_eq, visible.1, visible.2, false_or,
            or_false] at blank
          rcases blank with rfl | rfl
          · exact .inl rfl
          · exact .inr (.inl rfl)

theorem accept_inv {characters later : List Char} {accepted : Bool}
    (read : accept characters text = some (accepted, later)) :
    if accepted then text = characters ++ later else later = text := by
  unfold accept at read
  split at read
  · next isPrefix =>
    cases read
    obtain ⟨rest, rfl⟩ := List.isPrefixOf_iff_prefix.mp isPrefix
    simp
  · cases read
    rfl

/-- A name begins with a quote or with a character that needs none. -/
theorem head_of_name {result : String × List Char} (read : name fuel text = some result) :
    ∃ next, (text.dropWhile isBlank).head? = some next ∧
      (next = '"' ∨ next = '\'' ∨ isBare next = true) := by
  obtain ⟨_, middle, dropped, read⟩ := bind_inv read
  cases dropped
  obtain ⟨_, middle, peeked, read⟩ := bind_inv read
  cases peeked
  split at read
  · next isQuote => exact ⟨_, isQuote, .inl rfl⟩
  · next isQuote => exact ⟨_, isQuote, .inr (.inl rfl)⟩
  · obtain ⟨characters, middle, taken, read⟩ := bind_inv read
    cases taken
    split at read
    · cases read
    · next some_taken =>
      cases front : text.dropWhile isBlank with
      | nil =>
          rw [front] at some_taken
          exact absurd rfl some_taken
      | cons next rest =>
          refine ⟨next, rfl, .inr (.inr ?_)⟩
          by_contra notBare
          rw [front, List.takeWhile_cons_of_neg notBare] at some_taken
          exact some_taken rfl

/-- No name begins with a bracket, whatever blanks and line ends there are in front of it. -/
theorem name_ne_some (bracketed : Reading.Bracketed text) {result : String × List Char} :
    name fuel text ≠ some result := by
  intro read
  obtain ⟨next, head, bracket⟩ := bracketed
  obtain ⟨first, isFirst, begins⟩ := head_of_name read
  have first_eq : first = '\n' ∨ first = '\r' ∨ first = next := by
    rcases head_dropWhile head with lineEnd | lineEnd | same
    · exact .inl (Option.some.inj (isFirst.symm.trans lineEnd))
    · exact .inr (.inl (Option.some.inj (isFirst.symm.trans lineEnd)))
    · rw [same, head] at isFirst
      exact .inr (.inr (Option.some.inj isFirst).symm)
  rcases first_eq with rfl | rfl | rfl
  · simp [isBare] at begins
  · simp [isBare] at begins
  · rcases bracket with rfl | rfl | rfl <;> simp [isBare] at begins

/-- A line end in front of a text is one of its blanks. -/
theorem skipBlanks_of_lineEnd {later : List Char} (read : lineEnd text = some (true, later)) :
    skipBlanks later = skipBlanks text := by
  obtain ⟨accepted, middle, accepts, read⟩ := bind_inv read
  have front := accept_inv accepts
  cases accepted with
  | true =>
      cases read
      rw [if_pos rfl] at front
      rw [front]
      rfl
  | false =>
      have front' := accept_inv read
      rw [if_neg Bool.false_ne_true] at front
      rw [if_pos rfl, front] at front'
      rw [front']
      rfl

/-- Where the rest of a line is dropped and there is no remark, only blanks are dropped. -/
theorem skipBlanks_of_restOfLine {later : List Char} (read : restOfLine text = some ((), later))
    (visible : (skipBlanks text).head? ≠ some '#') : skipBlanks later = skipBlanks text := by
  obtain ⟨_, middle, dropped, read⟩ := bind_inv read
  cases dropped
  obtain ⟨_, middle, remarked, read⟩ := bind_inv read
  have none_remarked : middle = text.dropWhile isBlank := by
    obtain ⟨accepted, opened, accepts, remarked⟩ := bind_inv remarked
    have front := accept_inv accepts
    cases accepted with
    | true =>
        rw [if_pos rfl] at front
        rw [← skipBlanks_dropWhile, front] at visible
        exact absurd rfl visible
    | false =>
        cases remarked
        exact front
  rw [none_remarked] at read
  obtain ⟨_, _, peeked, read⟩ := bind_inv read
  cases peeked
  rw [← skipBlanks_dropWhile text]
  cases isText : text.dropWhile isBlank with
  | nil =>
      rw [isText] at read
      cases read
      rfl
  | cons first rest =>
      rw [isText] at read
      obtain ⟨ended, middle, ends, read⟩ := bind_inv read
      cases ended with
      | true =>
          cases read
          exact skipBlanks_of_lineEnd ends
      | false => cases read

/-- Neither an entry nor a header begins as a program does. -/
theorem line_ne_some (begins : Reading.BeginsProgram (skipBlanks text))
    (visible : text.dropWhile isBlank = skipBlanks text) {result : Line × List Char} :
    line fuel text ≠ some result := by
  intro read
  obtain ⟨_, _, dropped, read⟩ := bind_inv read
  cases dropped
  rw [visible] at read
  obtain ⟨_, _, peeked, read⟩ := bind_inv read
  cases peeked
  cases begins with
  | object head =>
      rw [head] at read
      obtain ⟨_, _, named, -⟩ := bind_inv read
      refine name_ne_some ⟨'\x7b', ?_, .inr (.inr rfl)⟩ named
      rw [Json.skipBlanks_skipBlanks, head]
  | array head inner nested =>
      rw [head] at read
      obtain ⟨doubled, middle, accepts, read⟩ := bind_inv read
      have front := accept_inv accepts
      cases doubled with
      | true =>
          rw [if_pos rfl] at front
          rw [front] at nested
          obtain ⟨_, _, named, -⟩ := bind_inv read
          exact name_ne_some (nested rfl) named
      | false =>
          rw [if_neg Bool.false_ne_true] at front
          obtain ⟨_, _, advanced, read⟩ := bind_inv read
          cases advanced
          obtain ⟨_, _, named, -⟩ := bind_inv read
          rw [front] at named
          exact name_ne_some inner named

/-- Where a line ends at once, its end is all that is dropped. -/
theorem restOfLine_of_line {result : Line} {later : List Char}
    (read : line fuel text = some (result, later)) {ending : Char}
    (head : (text.dropWhile isBlank).head? = some ending) (isEnd : ending = '\n' ∨ ending = '\r') :
    restOfLine (text.dropWhile isBlank) = some ((), later) := by
  obtain ⟨_, _, dropped, read⟩ := bind_inv read
  cases dropped
  obtain ⟨_, _, peeked, read⟩ := bind_inv read
  cases peeked
  rw [head] at read
  rcases isEnd with rfl | rfl
  all_goals
    obtain ⟨_, _, ends, read⟩ := bind_inv read
    cases read
    exact ends

/-- A line that begins as a program does is blank, and the next line begins so too. -/
theorem beginsProgram_of_line {result : Line} {later : List Char}
    (read : line fuel text = some (result, later)) (begins : Reading.BeginsProgram (skipBlanks text)) :
    Reading.BeginsProgram (skipBlanks later) := by
  obtain ⟨next, head, no_remark⟩ : ∃ next, (skipBlanks text).head? = some next ∧ next ≠ '#' := by
    cases begins with
    | object head | array head => exact ⟨_, head, by decide⟩
  have blank {ending : Char} (lineEnd : (text.dropWhile isBlank).head? = some ending)
      (isEnd : ending = '\n' ∨ ending = '\r') : Reading.BeginsProgram (skipBlanks later) := by
    rw [skipBlanks_of_restOfLine (restOfLine_of_line read lineEnd isEnd), skipBlanks_dropWhile]
    · exact begins
    · rw [skipBlanks_dropWhile, head]
      exact fun same => no_remark (Option.some.inj same)
  rcases head_dropWhile head with lineEnd | lineEnd | visible
  · exact blank lineEnd (.inl rfl)
  · exact blank lineEnd (.inr rfl)
  · exact absurd read (line_ne_some begins visible)

theorem lines_ne_some (begins : Reading.BeginsProgram (skipBlanks text))
    {result : List Line × List Char} : lines fuel text ≠ some result := by
  induction fuel generalizing text result with
  | zero => exact fun read => nomatch read
  | succ fuel ih =>
      intro read
      cases text with
      | nil => cases begins with | object head | array head => cases head
      | cons first rest =>
          rw [lines] at read
          obtain ⟨_, _, peeked, read⟩ := bind_inv read
          cases peeked
          obtain ⟨_, later, isLine, read⟩ := bind_inv read
          obtain ⟨_, _, others, -⟩ := bind_inv read
          exact ih (beginsProgram_of_line isLine begins) others

end Toml.Reader

/-- A text that is a table of settings is no program. -/
theorem Block.read_ne_ok_of_toml {text : String} {table : Json} (isTable : Toml.read? text = some table)
    {program : Block} : Block.read text ≠ .ok program := by
  intro read
  have begins := Block.beginsProgram_of_read read
  unfold Toml.read? at isTable
  have unmarked : text.toList.head? ≠ some '\uFEFF' := by
    intro marked
    cases isText : text.toList with
    | nil =>
        rw [isText] at marked
        cases marked
    | cons first rest =>
        rw [isText] at marked begins
        cases marked
        cases begins with
        | object head | array head => cases head
  dsimp only at isTable
  rw [if_neg unmarked] at isTable
  split at isTable
  · next read => exact Toml.Reader.lines_ne_some begins read
  · cases isTable

end YulLowering
