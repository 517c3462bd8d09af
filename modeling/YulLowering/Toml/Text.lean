import YulLowering.Digits

/-!
# TOML text

Readers take characters off the front of a text. This module has the blanks, line ends and remarks
between tokens, and the four forms of strings: on one line or on several, with escapes or without.
-/

namespace YulLowering.Toml

/-- Readers of TOML text; all that is wrong with a text is refused alike. -/
abbrev Reader := StateT (List Char) Option

namespace Reader

/-- The next character, which stays in the text. -/
def peek? : Reader (Option Char) := fun text =>
  some (text.head?, text)

/-- Drop one character. -/
def advance : Reader Unit := fun text =>
  some ((), text.tail)

/-- Drop characters that have to come next. -/
def expect : List Char → Reader Unit
  | [] => pure ()
  | expected :: others => fun text =>
    match text with
    | next :: rest => if next = expected then expect others rest else none
    | [] => none

/-- Whether certain characters come next; they are dropped if so. -/
def accept (characters : List Char) : Reader Bool := fun text =>
  if characters.isPrefixOf text then some (true, text.drop characters.length)
  else some (false, text)

/-- The characters at the front of a text that belong to a class. -/
def takeWhile (belongs : Char → Bool) : Reader (List Char) := fun text =>
  some (text.takeWhile belongs, text.dropWhile belongs)

/-! ## Blanks, line ends and remarks -/

/-- The characters that may stand between tokens of one line. -/
def isBlank (character : Char) : Bool :=
  character == ' ' || character == '\t'

/-- The characters that may stand in a remark: all but control characters, a tab excepted. -/
def isPlain (character : Char) : Bool :=
  character == '\t' || (0x20 ≤ character.toNat && character.toNat != 0x7F)

/-- Drop blanks. -/
def blanks : Reader Unit := do
  let _ ← takeWhile isBlank

/-- Drop a line end if one comes next. -/
def lineEnd : Reader Bool := do
  if ← accept ['\n'] then pure true else accept ['\r', '\n']

/-- Drop a remark if one comes next. -/
def remark : Reader Unit := do
  if ← accept ['#'] then
    let _ ← takeWhile isPlain

/-- What may follow the last token of a line. -/
def restOfLine : Reader Unit := do
  blanks
  remark
  match ← peek? with
  | none => pure ()
  | some _ => if ← lineEnd then pure () else failure

/-- Drop blanks, line ends and remarks. A remark goes to the end of its line. -/
def gap : Nat → Reader Unit
  | 0 => failure
  | fuel + 1 => do
    blanks
    match ← peek? with
    | some '#' =>
      remark
      if ← lineEnd then gap fuel else failure
    | some '\n' | some '\r' => if ← lineEnd then gap fuel else failure
    | _ => pure ()

/-! ## Strings -/

/-- The number that just so many digits stand for. -/
def fixedDigits (base count : Nat) : Reader Nat := fun text =>
  let written := text.take count
  match written.mapM (digit? base) with
  | some digits =>
    if written.length = count then some (ofDigits base digits, text.drop count) else none
  | none => none

/-- A number of hexadecimal digits that name a character. -/
def codePoint (count : Nat) : Reader Char := do
  let code ← fixedDigits 16 count
  if code.isValidChar then pure (Char.ofNat code) else failure

/-- What follows the backslash of an escape. -/
def escape : Reader Char := do
  match ← peek? with
  | some letter =>
    advance
    match letter with
    | 'b' => pure '\x08'
    | 't' => pure '\t'
    | 'n' => pure '\n'
    | 'f' => pure '\x0c'
    | 'r' => pure '\r'
    | '"' => pure '"'
    | '\\' => pure '\\'
    | 'u' => codePoint 4
    | 'U' => codePoint 8
    | _ => failure
  | none => failure

/-- The characters of a string on one line up to its closing quote. Escapes count only between
double quotes. -/
def lineString (quote : Char) : Nat → Reader (List Char)
  | 0 => failure
  | fuel + 1 => do
    match ← peek? with
    | none => failure
    | some next =>
      advance
      if next = quote then pure []
      else if next = '\\' ∧ quote = '"' then
        let character ← escape
        let others ← lineString quote fuel
        pure (character :: others)
      else if isPlain next then
        let others ← lineString quote fuel
        pure (next :: others)
      else failure

/-- Drop blanks and line ends. -/
def blankLines : Nat → Reader Unit
  | 0 => failure
  | fuel + 1 => do
    blanks
    if ← lineEnd then blankLines fuel

/-- Whether a backslash ends its line. It then takes with it the line end and all blanks and line
ends that follow. -/
def continuation (fuel : Nat) : Reader Bool := fun text =>
  match text.dropWhile isBlank with
  | '\n' :: _ | '\r' :: '\n' :: _ => (do
    blankLines fuel
    pure true) text
  | _ => some (false, text)

/-- The characters of a string over several lines up to its closing quotes. Of a run of quotes the
first two may belong to the string and three close it; fewer than three all belong to it. -/
def longString (quote : Char) : Nat → Reader (List Char)
  | 0 => failure
  | fuel + 1 => do
    let quotes ← takeWhile fun next => next == quote
    if quotes.length ≥ 3 then
      let own := min 2 (quotes.length - 3)
      fun text => some (List.replicate own quote,
        List.replicate (quotes.length - 3 - own) quote ++ text)
    else
      match ← peek? with
      | none => failure
      | some next =>
        if ← lineEnd then
          let others ← longString quote fuel
          pure (quotes ++ '\n' :: others)
        else
          advance
          if next = '\\' ∧ quote = '"' then
            if ← continuation fuel then
              let others ← longString quote fuel
              pure (quotes ++ others)
            else
              let character ← escape
              let others ← longString quote fuel
              pure (quotes ++ character :: others)
          else if isPlain next then
            let others ← longString quote fuel
            pure (quotes ++ next :: others)
          else failure

/-- A string on one line, from its opening quote on. -/
def shortQuoted (fuel : Nat) : Reader String := do
  if ← accept ['"'] then
    return String.ofList (← lineString '"' fuel)
  else
    expect ['\'']
    return String.ofList (← lineString '\'' fuel)

/-- A string, from its opening quote on. A line end right after three quotes does not count. -/
def quoted (fuel : Nat) : Reader String := do
  if ← accept ['"', '"', '"'] then
    let _ ← lineEnd
    return String.ofList (← longString '"' fuel)
  else if ← accept ['\'', '\'', '\''] then
    let _ ← lineEnd
    return String.ofList (← longString '\'' fuel)
  else shortQuoted fuel

end Reader

end YulLowering.Toml
