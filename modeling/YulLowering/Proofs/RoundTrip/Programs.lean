import YulLowering.Proofs.RoundTrip.Trees
import YulLowering.Syntax.Reader

/-!
# Reading programs that have been written

A program is read back from the text that is written of it. The kind of a statement is the first thing that
is written of it, its fields are read up to the closing brace, and only then decoded. Containers may lie at
most `depthLimit` deep in the text; any tree whose form keeps to that is read back.
-/

namespace YulLowering

open Json Json.Reader

namespace Reading

variable {fuel depth : Nat}

theorem takes_decoded {α : Type} {outcome : Option α} {value : α} (isSome : outcome = some value) :
    Takes (decoded outcome) [] value := by
  rw [isSome]
  exact .pure value

theorem takes_kindByName (kind : Statement.Kind) (room : (quotedCharacters kind.tag).length ≤ fuel) :
    Takes (kindByName fuel) (quotedCharacters kind.tag) kind := by
  have shorter := length_lt_quotedCharacters kind.tag
  rw [kindByName, quotedCharacters]
  apply Takes.peek_bind rfl
  rw [if_pos rfl]
  apply Takes.advance_bind
  exact (takes_string (by omega)).bind_nil (takes_decoded (asNamedKind_statement_tag kind))

/-- The kind of a statement is its first member. -/
theorem takes_kindMember (kind : Statement.Kind)
    (room : (memberText (kindField, .string kind.tag)).length ≤ fuel) :
    Takes (statementMember fuel depth ⟨none, []⟩) (memberText (kindField, .string kind.tag))
      ⟨some kind, []⟩ := by
  have isText : (Json.string kind.tag).characters = quotedCharacters kind.tag := by rw [characters]
  rw [memberText, List.length_append, List.length_cons, isText] at room
  rw [statementMember, memberText, isText]
  apply (takes_memberName (by omega)).bind
  rw [if_pos rfl, if_neg (by simp)]
  apply (takes_expect rfl).bind
  exact (takes_kindByName kind (by omega)).bind_pure _

/-- A field of a statement is read as a value. -/
theorem takes_fieldMember {field : String × Json} (other : field.1 ≠ kindField)
    (readsBack : ReadsBack field.2) (room : (memberText field).length ≤ fuel)
    (shallow : field.2.depth ≤ depth) (known : PartialStatement) :
    Takes (statementMember fuel depth known) (memberText field)
      { known with members := known.members ++ [field] } := by
  rw [memberText, List.length_append, List.length_cons] at room
  rw [statementMember, memberText]
  apply (takes_memberName (by omega)).bind
  rw [if_neg other]
  apply (takes_expect rfl).bind
  exact (readsBack fuel depth (by omega) shallow).bind_pure
    fun next => { known with members := known.members ++ [(field.1, next)] }

theorem foldl_members (fields : List (String × Json)) (known : PartialStatement) :
    fields.foldl (fun known field => { known with members := known.members ++ [field] }) known =
      { known with members := known.members ++ fields } := by
  induction fields generalizing known with
  | nil =>
      rw [List.append_nil]
      rfl
  | cons field rest ih =>
      rw [List.foldl_cons, ih, List.append_assoc]
      rfl

/-- The members of a statement are read back, the kind apart from the fields. -/
theorem takes_members {kind : Statement.Kind} {fields : List (String × Json)}
    (others : ∀ field ∈ fields, field.1 ≠ kindField) (each : ∀ field ∈ fields, ReadsBack field.2)
    (room : (memberCharacters ((kindField, .string kind.tag) :: fields)).length < fuel)
    (shallow : depthOfMembers fields ≤ depth) :
    Takes (items '\x7d' (statementMember fuel depth) fuel ⟨none, []⟩)
      (memberCharacters ((kindField, .string kind.tag) :: fields) ++ ['\x7d']) ⟨some kind, fields⟩ := by
  rw [memberCharacters_eq, separated] at room ⊢
  rw [List.length_append] at room
  rw [List.append_assoc]
  have count := length_le_flatMap_comma memberText fields
  have takesField (field : String × Json) (member : field ∈ fields) (known : PartialStatement) :
      Takes (statementMember fuel depth known) (memberText field)
        { known with members := known.members ++ [field] } := by
    have within := length_lt_flatMap_comma memberText member
    have inside := depth_le_depthOfMembers member
    exact takes_fieldMember (others field member) (each field member) (by omega) (by omega) known
  have takes : Takes (items '\x7d' (statementMember fuel depth) fuel ⟨none, []⟩) _ _ :=
    takes_items_cons rfl (by decide) (starts_memberText _) (takes_kindMember kind (by omega))
      takesField (by omega)
  rwa [foldl_members] at takes

/-- A statement is read back. -/
theorem takes_statement (written : Statement) (room : written.toJson.characters.length ≤ fuel)
    (shallow : written.toJson.depth ≤ depth) :
    Takes (statement fuel depth) written.toJson.characters written := by
  have others := written.laterMembers_others
  have numberless := isNumberless_statement written
  have decoded := decodeStatement_laterMembers written
  rw [written.toJson_eq] at room shallow numberless ⊢
  rw [isNumberless, haveNoNumbers, Bool.and_eq_true] at numberless
  rw [characters, List.length_cons, List.length_append, List.length_singleton] at room
  rw [Json.depth, depthOfMembers] at shallow
  rw [characters]
  cases depth with
  | zero => omega
  | succ depth =>
      rw [statement]
      apply Takes.peek_bind rfl
      apply Takes.advance_bind
      exact (takes_members others (readsBack_members _ numberless.2) (by omega) (by omega)).bind_nil
        (takes_decoded decoded)

theorem starts_statement (written : Statement) : Starts ']' written.toJson.characters :=
  starts_characters (isNumberless_statement written)

/-- The statements of the outermost block are read back. -/
theorem takes_statements {written : Block}
    (room : (Json.array (encodeStatements written)).characters.length ≤ fuel)
    (shallow : (Json.array (encodeStatements written)).depth ≤ depth) :
    Takes (statements fuel depth) (Json.array (encodeStatements written)).characters written := by
  rw [encodeStatements_eq] at *
  rw [Json.depth] at shallow
  rw [characters, elementCharacters_eq, separated_map] at *
  rw [List.length_cons, List.length_append, List.length_singleton] at room
  have count := length_entries_le (fun statement => statement.toJson.characters) written
  cases depth with
  | zero => omega
  | succ depth =>
      rw [statements]
      apply Takes.peek_bind rfl
      apply Takes.advance_bind
      apply takes_items rfl (by decide) (fun statement _ => starts_statement statement) _ (by omega)
      intro statement member block
      have within := length_le_separated (fun statement => statement.toJson.characters) member
      have inside := depth_le_depthOfElements (List.mem_map_of_mem (f := Statement.toJson) member)
      exact (takes_statement statement (by omega) (by omega)).bind_pure fun next => block ++ [next]

/-- The statements are the one member of the outermost block. -/
theorem takes_blockMember (written : Block)
    (room : (memberText ("statements", .array (encodeStatements written))).length ≤ fuel)
    (shallow : (Json.array (encodeStatements written)).depth ≤ depth) :
    Takes (blockMember fuel depth none) (memberText ("statements", .array (encodeStatements written)))
      (some written) := by
  rw [blockMember]
  dsimp only [memberText] at room ⊢
  rw [List.length_append, List.length_cons] at room
  apply (takes_memberName (by omega)).bind
  rw [if_pos rfl, if_neg (by simp)]
  apply (takes_expect rfl).bind
  exact (takes_statements (by omega) shallow).map some

/-- The outermost block is read back. -/
theorem takes_block {written : Block} (room : written.toJson.characters.length < fuel)
    (shallow : written.toJson.depth ≤ depth) :
    Takes (block fuel depth) written.toJson.characters written := by
  rw [Block.toJson, characters, memberCharacters_eq, separated] at *
  rw [Json.depth, depthOfMembers] at shallow
  rw [List.length_cons, List.length_append, List.length_append] at room
  cases depth with
  | zero => omega
  | succ depth =>
      rw [block]
      apply Takes.peek_bind rfl
      apply Takes.advance_bind
      rw [List.append_assoc]
      have member : Takes (blockMember fuel depth none) _ (some written) :=
        takes_blockMember written (by omega) (by omega)
      have no_more : ∀ entry ∈ ([] : List (String × Json)), ∀ known : Option Block,
          Takes (blockMember fuel depth known) (memberText entry) known := by
        intro entry isMember
        cases isMember
      exact (takes_items_cons rfl (by decide) (starts_memberText _) member no_more
        (by rw [List.length_nil]; omega)).bind_pure fun known => known.getD []

end Reading

/-- A program is read back from its text if containers lie at most `depthLimit` deep in it. -/
theorem Block.read_text_toJson {block : Block} (shallow : block.toJson.depth ≤ depthLimit) :
    Block.read block.toJson.text = .ok block := by
  have takes := Reading.takes_block (Nat.lt_succ_self block.toJson.characters.length) shallow []
  rw [List.append_nil] at takes
  rw [Block.read, whole, Json.text, String.toList_ofList, takes]
  rfl

/-- Blocks inside each other, each followed by statements of other kinds. -/
def nestedBlocks : Nat → Block
  | 0 =>
    [.label "quote \" backslash \\ bell \x07 line\n é 😀", .expression (.instructionCall "add" [])]
  | count + 1 =>
    [.block (nestedBlocks count), .declaration [⟨"x", "u8"⟩, ⟨"", ""⟩] none,
      .switch (.call "f" [.literal (.string "\u2028"), .instruction "pc"])
        [⟨none, []⟩, ⟨some (.boolean true), []⟩],
      .loop [] (.identifier "x") [.continueLoop] [.breakLoop], .stackAssignment "x"]

/-- With sixty-one blocks inside each other the text nests as deep as it may. -/
theorem Block.read_text_toJson_nestedBlocks :
    (nestedBlocks 61).toJson.depth = depthLimit ∧
      Block.read (nestedBlocks 61).toJson.text = .ok (nestedBlocks 61) := by
  have deepest : (nestedBlocks 61).toJson.depth = depthLimit := by decide +kernel
  exact ⟨deepest, Block.read_text_toJson (Nat.le_of_eq deepest)⟩

end YulLowering
