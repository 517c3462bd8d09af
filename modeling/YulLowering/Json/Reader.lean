import YulLowering.Decimal
import YulLowering.Json

/-!
# Reading JSON text

Readers take characters off the front of a text and say how the text fails them: it ends too early,
it is not JSON, or it is JSON of the wrong shape. The first problem met from left to right decides,
so a reader never looks ahead of what it has to decide.

Containers may lie at most `depthLimit` deep. A value that is skipped is held to looser rules: it
may lie at any depth, its numbers may have any size, and its strings may name half of a surrogate
pair.
-/

namespace YulLowering.Json

/-- Why a text is refused. -/
inductive Refusal where
  /-- The text ends where more was needed. -/
  | truncated
  /-- The text is not JSON, or nests too deep. -/
  | malformed
  /-- The text is JSON up to here and has the wrong shape. -/
  | mismatched
deriving DecidableEq, Repr, Inhabited

/-- Readers of text. -/
abbrev Reader := StateT (List Char) (Except Refusal)

/-- How deep containers may lie inside each other. -/
def depthLimit : Nat := 127

/-- The characters that may stand between tokens. -/
def isBlank (character : Char) : Bool :=
  character == ' ' || character == '\n' || character == '\t' || character == '\r'

/-- Drop blanks. -/
def skipBlanks (text : List Char) : List Char :=
  text.dropWhile isBlank

namespace Reader

/-- The next character that is not blank. It stays in the text. -/
def peek : Reader Char := fun text =>
  match skipBlanks text with
  | [] => .error .truncated
  | next :: rest => .ok (next, next :: rest)

/-- Drop one character. -/
def advance : Reader Unit := fun text =>
  .ok ((), text.tail)

/-- Drop a character that has to come next, blanks aside. -/
def expect (character : Char) : Reader Unit := do
  if (← peek) = character then advance else throw .malformed

/-- Drop the rest of a keyword. -/
def keyword : List Char → Reader Unit
  | [] => pure ()
  | expected :: others => fun text =>
    match text with
    | [] => .error .truncated
    | next :: rest => if next = expected then keyword others rest else .error .malformed

/-! ## Strings -/

/-- Four hexadecimal digits. A text counts as too short for them if it has fewer than four bytes. -/
def hexQuad : Reader Nat := fun text =>
  match text with
  | a :: b :: c :: d :: rest =>
    match [a, b, c, d].mapM (digit? 16) with
    | some digits => .ok (ofDigits 16 digits, rest)
    | none => .error .malformed
  | short =>
    if (String.ofList short).utf8ByteSize < 4 then .error .truncated else .error .malformed

/-- Whether a number is the first half of a surrogate pair. -/
def isHighSurrogate (unit : Nat) : Bool :=
  0xD800 ≤ unit && unit ≤ 0xDBFF

/-- Whether a number is the second half of a surrogate pair. -/
def isLowSurrogate (unit : Nat) : Bool :=
  0xDC00 ≤ unit && unit ≤ 0xDFFF

/-- A character inside a string that has to come next. -/
def exactly (character : Char) : Reader Unit := fun text =>
  match text with
  | [] => .error .truncated
  | next :: rest => if next = character then .ok ((), rest) else .error .malformed

/-- What follows the `u` of an escape: one unit, or the two units of a surrogate pair. -/
def unicodeEscape : Reader Char := do
  let first ← hexQuad
  if isLowSurrogate first then throw .malformed
  if isHighSurrogate first then
    exactly '\\'
    exactly 'u'
    let second ← hexQuad
    if isLowSurrogate second then
      pure (Char.ofNat ((first - 0xD800) * 0x400 + (second - 0xDC00) + 0x10000))
    else throw .malformed
  else pure (Char.ofNat first)

/-- The character that a one-letter escape stands for. -/
def simpleEscape? : Char → Option Char
  | '"' => some '"'
  | '\\' => some '\\'
  | '/' => some '/'
  | 'b' => some '\x08'
  | 'f' => some '\x0c'
  | 'n' => some '\n'
  | 'r' => some '\r'
  | 't' => some '\t'
  | _ => none

/-- What follows the backslash of an escape. -/
def escape : Reader Char := fun text =>
  match text with
  | [] => .error .truncated
  | 'u' :: rest => unicodeEscape rest
  | letter :: rest =>
    match simpleEscape? letter with
    | some character => .ok (character, rest)
    | none => .error .malformed

/-- The characters of a string up to its closing quote. -/
def stringBody : Nat → Reader (List Char)
  | 0 => throw .malformed
  | fuel + 1 => fun text =>
    match text with
    | [] => .error .truncated
    | '"' :: rest => .ok ([], rest)
    | '\\' :: rest =>
      (do
        let character ← escape
        let others ← stringBody fuel
        pure (character :: others)) rest
    | character :: rest =>
      if character.toNat < 0x20 then .error .malformed
      else
        (do
          let others ← stringBody fuel
          pure (character :: others)) rest

/-- A string whose opening quote has been dropped. -/
def string (fuel : Nat) : Reader String := do
  pure (String.ofList (← stringBody fuel))

/-- Skip an escape. Units need not pair up. -/
def skipEscape : Reader Unit := fun text =>
  match text with
  | [] => .error .truncated
  | 'u' :: rest => (do let _ ← hexQuad) rest
  | letter :: rest => if (simpleEscape? letter).isSome then .ok ((), rest) else .error .malformed

/-- Skip a string up to its closing quote. -/
def skipString : Nat → Reader Unit
  | 0 => throw .malformed
  | fuel + 1 => fun text =>
    match text with
    | [] => .error .truncated
    | '"' :: rest => .ok ((), rest)
    | '\\' :: rest =>
      (do
        skipEscape
        skipString fuel) rest
    | character :: rest =>
      if character.toNat < 0x20 then .error .malformed else skipString fuel rest

/-! ## Numbers -/

/-- The digits at the front of a text. -/
def digits : Reader (List Nat) := fun text =>
  .ok ((text.takeWhile Char.isDigit).map fun digit => digit.toNat - '0'.toNat,
    text.dropWhile Char.isDigit)

/-- One or more digits. -/
def someDigits : Reader (List Nat) := fun text =>
  match text with
  | [] => .error .truncated
  | next :: _ => if next.isDigit then digits text else .error .malformed

/-- The integer part of a number: no digit may follow a leading zero. -/
def integerPart : Reader (List Nat) := do
  match ← someDigits with
  | 0 :: _ :: _ => throw .malformed
  | value => pure value

/-- Drop a character if it comes next. -/
def optional (characters : List Char) : Reader (Option Char) := fun text =>
  match text with
  | next :: rest => if characters.contains next then .ok (some next, rest) else .ok (none, text)
  | [] => .ok (none, [])

/-- Read a number from its sign on. -/
def numeral : Reader Decimal := do
  let sign ← optional ['-']
  let integer ← integerPart
  let fraction ←
    match ← optional ['.'] with
    | some _ => some <$> someDigits
    | none => pure none
  match ← optional ['e', 'E'] with
  | some _ =>
    let exponentSign ← optional ['+', '-']
    let exponent ← someDigits
    pure ⟨sign.isSome, integer, fraction, some (exponentSign == some '-', exponent)⟩
  | none => pure ⟨sign.isSome, integer, fraction, none⟩

/-- The largest number of 64 bits. -/
def word64Max : Nat := (1 <<< 64) - 1

/-- Take digits into a significand as long as it stays within 64 bits. The digits that are left over
come back too. -/
def accumulate (significand : Nat) : List Nat → Nat × List Nat
  | [] => (significand, [])
  | digit :: rest =>
    if significand * 10 + digit ≤ word64Max then accumulate (significand * 10 + digit) rest
    else (significand, digit :: rest)

/-- A number rounded to 53 significant bits, halves going to the even neighbour. -/
def roundToDouble (value : Nat) : Nat :=
  if value < 1 <<< 53 then value
  else
    let shift := value.log2 - 52
    let quotient := value >>> shift
    let remainder := value % (1 <<< shift)
    let half := 1 <<< (shift - 1)
    let up := half < remainder || (remainder == half && quotient % 2 == 1)
    (quotient + if up then 1 else 0) <<< shift

/-- Whether a significand scaled by a power of ten is too large for a double. Both factors are
rounded before they are multiplied. -/
def overflows (significand : Nat) (exponent : Int) : Bool :=
  significand != 0 && 0 < exponent &&
    (308 < exponent ||
      doubleOverflow ≤ roundToDouble significand * roundToDouble (Nat.pow 10 exponent.toNat))

/-- The significand that a number is kept with, and the power of ten it is scaled by. Digits beyond
64 bits are dropped: in front of the point they still count as a power of ten. -/
def scaled (number : Decimal) : Nat × Int :=
  let (significand, beyond) := accumulate 0 number.integer
  let (significand, ignored) := accumulate significand number.fractionDigits
  let places := number.fractionDigits.length - ignored.length
  (significand, (beyond.length : Int) - (places : Int) + number.power)

/-- The value of a number, refused if it is too large for a double. -/
def valueOf (number : Decimal) : Except Refusal Number :=
  let (significand, exponent) := scaled number
  if number.isInteger && exponent == 0 then
    if number.negative then .ok .other else .ok (.natural significand)
  else if overflows significand exponent then .error .malformed
  else .ok .other

/-- A number. -/
def number : Reader Number := do
  liftM (valueOf (← numeral))

/-- Skip a number of any size. Where it ends too early it is not a number. -/
def skipNumber : Reader Unit := fun text =>
  match numeral text with
  | .ok (_, rest) => .ok ((), rest)
  | .error _ => .error .malformed

/-! ## Containers -/

/-- The items of a container after its first one, up to the closing character. A state goes from
item to item. -/
def moreItems {σ : Type} (closing : Char) (item : σ → Reader σ) : Nat → σ → Reader σ
  | 0, _ => throw .malformed
  | fuel + 1, state => do
    let next ← peek
    if next = closing then
      advance
      pure state
    else if next = ',' then
      advance
      moreItems closing item fuel (← item state)
    else throw .malformed

/-- The items of a container whose opening character has been dropped. -/
def items {σ : Type} (closing : Char) (item : σ → Reader σ) (fuel : Nat) (state : σ) :
    Reader σ := do
  if (← peek) = closing then
    advance
    pure state
  else
    moreItems closing item fuel (← item state)

/-- The name of a member. -/
def memberName (fuel : Nat) : Reader String := do
  expect '"'
  string fuel

/-- A value, with containers inside it at most as deep as given. -/
def value : Nat → Nat → Reader Json
  | 0, _ => throw .malformed
  | fuel + 1, depth => do
    match ← peek with
    | 'n' =>
      advance
      keyword ['u', 'l', 'l']
      pure .null
    | 't' =>
      advance
      keyword ['r', 'u', 'e']
      pure (.bool true)
    | 'f' =>
      advance
      keyword ['a', 'l', 's', 'e']
      pure (.bool false)
    | '"' =>
      advance
      .string <$> string fuel
    | '[' =>
      match depth with
      | 0 => throw .malformed
      | depth + 1 =>
        advance
        let element := fun elements => do
          let next ← value fuel depth
          pure (elements ++ [next])
        .array <$> items ']' element fuel []
    | '\x7b' =>
      match depth with
      | 0 => throw .malformed
      | depth + 1 =>
        advance
        let member := fun members => do
          let name ← memberName fuel
          expect ':'
          let next ← value fuel depth
          pure (members ++ [(name, next)])
        .object <$> items '\x7d' member fuel []
    | next => if next = '-' ∨ next.isDigit then .number <$> number else throw .malformed

/-- Skip a value of any depth. -/
def skipValue : Nat → Reader Unit
  | 0 => throw .malformed
  | fuel + 1 => do
    match ← peek with
    | 'n' =>
      advance
      keyword ['u', 'l', 'l']
    | 't' =>
      advance
      keyword ['r', 'u', 'e']
    | 'f' =>
      advance
      keyword ['a', 'l', 's', 'e']
    | '"' =>
      advance
      skipString fuel
    | '[' =>
      advance
      items ']' (fun _ => skipValue fuel) fuel ()
    | '\x7b' =>
      advance
      let member := fun _ => do
        expect '"'
        skipString fuel
        expect ':'
        skipValue fuel
      items '\x7d' member fuel ()
    | next => if next = '-' ∨ next.isDigit then skipNumber else throw .malformed

/-- Refuse the next value for its shape. A scalar is read first, and refused for its spelling if
that is wrong; a container is refused at its opening character. -/
def mismatch {α : Type} (fuel : Nat) : Reader α := do
  let next ← peek
  if next = '[' ∨ next = '\x7b' then throw .mismatched
  let _ ← value fuel 0
  throw .mismatched

/-- Run a reader on a whole text, after which only blanks may follow. -/
def whole {α : Type} (reader : Nat → Reader α) (text : String) : Except Refusal α :=
  let characters := text.toList
  match reader (characters.length + 1) characters with
  | .error refusal => .error refusal
  | .ok (result, rest) => if (skipBlanks rest).isEmpty then .ok result else .error .malformed

end Reader

/-- Read a text that is a JSON value. -/
def read (text : String) : Except Refusal Json :=
  Reader.whole (fun fuel => Reader.value fuel depthLimit) text

end YulLowering.Json
