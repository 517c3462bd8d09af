import YulLowering.Toml.Scalars

/-!
# Documents

A document is read as one table, which is given as a JSON object. Values may be of any kind and nest to
a limit. The entries and headers of the document itself have plain names here: a dotted one speaks of
a table inside a table, of which settings have none but those in arrays, so a text with one is refused
at once, as it would be for its shape.
-/

namespace YulLowering.Toml

/-- How deep arrays and tables may lie inside each other, and how many parts a dotted name may have. -/
def nestingLimit : Nat := 79

/-- What a line of a document can be. -/
inductive Line where
  | blank
  | entry (name : String) (value : Json)
  /-- The header of a table. -/
  | table (name : String)
  /-- The header of an element of an array of tables. -/
  | element (name : String)

/-! ## Tables with dotted names -/

/-- Whether no dotted name leads to or through what another one names. -/
def areApart : List (List String) → Bool
  | [] => true
  | path :: others =>
    (others.all fun other => !path.isPrefixOf other && !other.isPrefixOf path) && areApart others

/-- Names that are apart are all different. -/
theorem nodup_of_areApart {paths : List (List String)} (apart : areApart paths) : paths.Nodup := by
  induction paths with
  | nil => exact List.nodup_nil
  | cons path others ih =>
    simp only [areApart, Bool.and_eq_true, List.all_eq_true] at apart
    refine List.nodup_cons.2 ⟨fun member => ?_, ih apart.2⟩
    have clash := (apart.1 path member).1
    simp [List.isPrefixOf_iff_prefix.2 (List.prefix_refl path)] at clash

/-- Put a value into a table under a dotted name. The tables on the way are opened where they are not
there yet. -/
def insertAt : List String → Json → List (String × Json) → List (String × Json)
  | [], _, table => table
  | [name], content, table => table ++ [(name, content)]
  | name :: others, content, table =>
    match table.lookup name with
    | some (.object inner) =>
      table.map fun (other, old) =>
        if other == name then (other, .object (insertAt others content inner)) else (other, old)
    | _ => table ++ [(name, .object (insertAt others content []))]

/-- The table that entries with dotted names make, if they do not get in each other's way. -/
def tableOf? (entries : List (List String × Json)) : Option (List (String × Json)) :=
  if areApart (entries.map Prod.fst) then
    some (entries.foldl (fun table (path, content) => insertAt path content table) [])
  else none

namespace Reader

/-! ## Names and values -/

/-- The characters of a name without quotes. -/
def isBare (character : Char) : Bool :=
  character.isAlphanum || character == '_' || character == '-'

/-- A name with the blanks around it. -/
def name (fuel : Nat) : Reader String := do
  blanks
  let result ←
    match ← peek? with
    | some '"' | some '\'' => shortQuoted fuel
    | _ =>
      let characters ← takeWhile isBare
      if characters.isEmpty then failure else pure (String.ofList characters)
  blanks
  pure result

/-- A dotted name of at most so many parts. -/
def dottedName (fuel : Nat) : Nat → Reader (List String)
  | 0 => failure
  | parts + 1 => do
    let first ← name fuel
    if ← accept ['.'] then
      let others ← dottedName fuel parts
      pure (first :: others)
    else pure [first]

/-- The elements of an array up to its closing bracket. A comma may follow the last one. -/
def elements (value : Reader Json) : Nat → Reader (List Json)
  | 0 => failure
  | fuel + 1 => do
    gap fuel
    if ← accept [']'] then pure []
    else
      let first ← value
      gap fuel
      if ← accept [','] then
        let others ← elements value fuel
        pure (first :: others)
      else
        expect [']']
        pure [first]

/-- The entries of a table on one line up to its closing brace. -/
def entries (value : Reader Json) : Nat → Reader (List (List String × Json))
  | 0 => failure
  | fuel + 1 => do
    let path ← dottedName fuel nestingLimit
    expect ['=']
    blanks
    let first ← value
    blanks
    if ← accept [','] then
      let others ← entries value fuel
      pure ((path, first) :: others)
    else
      expect ['\x7d']
      pure [(path, first)]

/-- A value in which arrays and tables lie at most so deep. -/
def value (fuel : Nat) : Nat → Reader Json
  | 0 => scalar fuel
  | depth + 1 => do
    match ← peek? with
    | some '[' =>
      advance
      .array <$> elements (value fuel depth) fuel
    | some '\x7b' =>
      advance
      blanks
      if ← accept ['\x7d'] then pure (.object [])
      else
        let written ← entries (value fuel depth) fuel
        .object <$> liftM (tableOf? written)
    | _ => scalar fuel

/-! ## Documents -/

/-- One line of a document, or several where its value goes over several. -/
def line (fuel : Nat) : Reader Line := do
  blanks
  match ← peek? with
  | none | some '#' | some '\n' | some '\r' =>
    restOfLine
    pure .blank
  | some '[' =>
    if ← accept ['[', '['] then
      let header ← name fuel
      expect [']', ']']
      restOfLine
      pure (.element header)
    else
      advance
      let header ← name fuel
      expect [']']
      restOfLine
      pure (.table header)
  | some _ =>
    let key ← name fuel
    expect ['=']
    blanks
    let content ← value fuel nestingLimit
    restOfLine
    pure (.entry key content)

/-- All lines of a document. -/
def lines : Nat → Reader (List Line)
  | 0 => failure
  | fuel + 1 => do
    match ← peek? with
    | none => pure []
    | some _ =>
      let first ← line fuel
      let others ← lines fuel
      pure (first :: others)

end Reader

/-- A document in parts: the entries before the first header, the tables with headers of their own,
and the elements of arrays of tables. -/
structure Document where
  entries : List (String × Json)
  tables : List (String × Json)
  elements : List (String × Json)

/-- Put a line in front of a document. A header takes the entries up to the next header. -/
def Document.addLine (document : Document) : Line → Document
  | .blank => document
  | .entry name value => { document with entries := (name, value) :: document.entries }
  | .table name =>
    { document with entries := [], tables := (name, .object document.entries) :: document.tables }
  | .element name =>
    { document with
      entries := [], elements := (name, .object document.entries) :: document.elements }

/-- A document as one table. An array of tables has its elements in the order of their headers. What
is given twice in different ways is there twice. -/
def Document.toJson (document : Document) : Json :=
  let names := (document.elements.map Prod.fst).eraseDups
  let arrays := names.map fun name =>
    (name, Json.array ((document.elements.filter fun (other, _) => other == name).map Prod.snd))
  .object (document.entries ++ document.tables ++ arrays)

/-- Read a text as a table. A byte order mark in front of it does not count. -/
def read? (text : String) : Option Json :=
  let characters := text.toList
  let characters := if characters.head? = some '\uFEFF' then characters.tail else characters
  match Reader.lines (characters.length + 1) characters with
  | some (lines, _) =>
    let document : Document := ⟨[], [], []⟩
    some (lines.foldr (fun line rest => rest.addLine line) document).toJson
  | none => none

end YulLowering.Toml
