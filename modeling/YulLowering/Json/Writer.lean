import YulLowering.Digits
import YulLowering.Json

/-!
# Writing JSON text

The text of a value without blanks. In strings only quotes, backslashes and control characters are
escaped. A number of which no value is kept is written as a fraction, since what such a number stands
for is not a natural number.
-/

namespace YulLowering.Json

/-- The letter of the escape that a character has of its own. -/
def escapeLetter? : Char → Option Char
  | '"' => some '"'
  | '\\' => some '\\'
  | '\x08' => some 'b'
  | '\x0c' => some 'f'
  | '\n' => some 'n'
  | '\r' => some 'r'
  | '\t' => some 't'
  | _ => none

/-- A character as it is written inside a string. -/
def escapeCharacter (character : Char) : List Char :=
  match escapeLetter? character with
  | some letter => ['\\', letter]
  | none =>
    if character.toNat < 0x20 then
      ['\\', 'u', '0', '0', Nat.digitChar (character.toNat / 16),
        Nat.digitChar (character.toNat % 16)]
    else [character]

/-- A character that is neither a quote nor a backslash nor a control character stands for itself. -/
theorem escapeCharacter_of_plain {character : Char} (quote : character ≠ '"')
    (backslash : character ≠ '\\') (plain : 0x20 ≤ character.toNat) :
    escapeCharacter character = [character] := by
  have no_letter : escapeLetter? character = none := by
    unfold escapeLetter?
    split <;> simp_all +decide
  simp [escapeCharacter, no_letter, Nat.not_lt.2 plain]

/-- A string with its quotes. -/
def quotedCharacters (value : String) : List Char :=
  '"' :: (value.toList.flatMap escapeCharacter ++ ['"'])

/-- A number. -/
def Number.characters : Number → List Char
  | .natural value => Nat.toDigits 10 value
  | .other => ['0', '.', '5']

mutual

/-- The characters of a value. -/
def characters : Json → List Char
  | .null => ['n', 'u', 'l', 'l']
  | .bool true => ['t', 'r', 'u', 'e']
  | .bool false => ['f', 'a', 'l', 's', 'e']
  | .number value => value.characters
  | .string value => quotedCharacters value
  | .array elements => '[' :: (elementCharacters elements ++ [']'])
  | .object members => '\x7b' :: (memberCharacters members ++ ['\x7d'])

/-- The characters of the elements of an array, with commas between them. -/
def elementCharacters : List Json → List Char
  | [] => []
  | [element] => element.characters
  | element :: rest => element.characters ++ ',' :: elementCharacters rest

/-- The characters of the members of an object, with commas between them. -/
def memberCharacters : List (String × Json) → List Char
  | [] => []
  | [(name, value)] => quotedCharacters name ++ ':' :: value.characters
  | (name, value) :: rest =>
    quotedCharacters name ++ ':' :: (value.characters ++ ',' :: memberCharacters rest)

end

/-- The text of a value. -/
def text (value : Json) : String :=
  String.ofList value.characters

end YulLowering.Json
