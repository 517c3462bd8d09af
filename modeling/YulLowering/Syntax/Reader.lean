import YulLowering.Json.Reader
import YulLowering.Syntax.Decoding

/-!
# Reading programs

A program is read from its JSON text in one pass. Its outermost block is read as it comes; each of
its statements is read to its end before its fields are decoded. So of two problems in different
statements the earlier one is reported, while inside a statement a misspelling comes before a wrong
shape. A field that the outermost block does not have is skipped without being read as a value.
-/

namespace YulLowering.Reading

open Json Json.Reader

/-- Decode what has been read. -/
def decoded {α : Type} : Option α → Reader α
  | some value => pure value
  | none => throw .mismatched

/-- The kind of a statement, by name. -/
def kindByName (fuel : Nat) : Reader Statement.Kind := do
  if (← peek) = '"' then
    advance
    let name ← string fuel
    decoded (asNamedKind Statement.Kind.all Statement.Kind.tag (.string name))
  else mismatch fuel

/-- What is known of a statement while its members are read. -/
structure PartialStatement where
  kind : Option Statement.Kind
  members : List (String × Json)

/-- A member of a statement. The kind may come anywhere and only once. -/
def statementMember (fuel depth : Nat) (known : PartialStatement) : Reader PartialStatement := do
  let name ← memberName fuel
  if name = kindField then
    if known.kind.isSome then throw .mismatched
    expect ':'
    let kind ← kindByName fuel
    pure { known with kind := some kind }
  else
    expect ':'
    let next ← value fuel depth
    pure { known with members := known.members ++ [(name, next)] }

/-- An element of a statement that is written as an array: the kind comes first. -/
def statementElement (fuel depth : Nat) (known : Option (Statement.Kind × List Json)) :
    Reader (Option (Statement.Kind × List Json)) := do
  match known with
  | none =>
    let kind ← kindByName fuel
    pure (some (kind, []))
  | some (kind, elements) =>
    let next ← value fuel depth
    pure (some (kind, elements ++ [next]))

/-- Decode the fields of a statement that has been read to its end. -/
def finishStatement (kind : Statement.Kind) (fields : Json) : Reader Statement :=
  decoded (decodeStatementAs decodeInnerStatement kind fields)

/-- A statement of the outermost block. -/
def statement (fuel depth : Nat) : Reader Statement := do
  match ← peek, depth with
  | '[', 0 => throw .malformed
  | '[', depth + 1 =>
    advance
    match ← items ']' (statementElement fuel depth) fuel none with
    | some (kind, elements) => finishStatement kind (.array elements)
    | none => throw .mismatched
  | '\x7b', 0 => throw .malformed
  | '\x7b', depth + 1 =>
    advance
    match ← items '\x7d' (statementMember fuel depth) fuel ⟨none, []⟩ with
    | ⟨some kind, members⟩ => finishStatement kind (.object members)
    | ⟨none, _⟩ => throw .mismatched
  | _, _ => mismatch fuel

/-- The statements of the outermost block. -/
def statements (fuel depth : Nat) : Reader Block := do
  match ← peek, depth with
  | '[', 0 => throw .malformed
  | '[', depth + 1 =>
    advance
    let element := fun block => do
      let next ← statement fuel depth
      pure (block ++ [next])
    items ']' element fuel []
  | _, _ => mismatch fuel

/-- A member of the outermost block. -/
def blockMember (fuel depth : Nat) (known : Option Block) : Reader (Option Block) := do
  let name ← memberName fuel
  if name = "statements" then
    if known.isSome then throw .mismatched
    expect ':'
    some <$> statements fuel depth
  else
    expect ':'
    skipValue fuel
    pure known

/-- The element of an outermost block that is written as an array. -/
def blockElement (fuel depth : Nat) (known : Option Block) : Reader (Option Block) :=
  match known with
  | none => some <$> statements fuel depth
  | some _ => throw .malformed

/-- The outermost block. -/
def block (fuel depth : Nat) : Reader Block := do
  match ← peek, depth with
  | '[', 0 => throw .malformed
  | '[', depth + 1 =>
    advance
    return (← items ']' (blockElement fuel depth) fuel none).getD []
  | '\x7b', 0 => throw .malformed
  | '\x7b', depth + 1 =>
    advance
    return (← items '\x7d' (blockMember fuel depth) fuel none).getD []
  | _, _ => mismatch fuel

end YulLowering.Reading

namespace YulLowering

/-- Read a program from its JSON text. -/
def Block.read (text : String) : Except Json.Refusal Block :=
  Json.Reader.whole (fun fuel => Reading.block fuel Json.depthLimit) text

end YulLowering
