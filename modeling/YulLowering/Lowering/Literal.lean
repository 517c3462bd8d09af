import YulLowering.Digits
import YulLowering.Ir.Value
import YulLowering.Lowering.Fault

/-!
# The value of a literal

A number is written in decimal digits, or in hexadecimal ones after `0x`. A truth value is one or
zero. A string fills a word of 32 bytes from the left, so that its first byte is the most
significant one. A literal can be used at a type if its value fits the type's width.
-/

namespace YulLowering

namespace Literal

/-- Read a number that has at least one digit and nothing but digits. -/
def readDigits? (base : Nat) (characters : List Char) : Option Nat :=
  if characters.isEmpty then none else (characters.mapM (digit? base)).map (ofDigits base)

/-- Read the spelling of a number. -/
def readNumber? (characters : List Char) : Option Nat :=
  match characters with
  | '0' :: 'x' :: digits => readDigits? 16 digits
  | digits => readDigits? 10 digits

/-- How many bytes a string literal can hold. -/
def wordSize : Nat := 32

/-- The word whose first bytes are given and whose other bytes are zero. -/
def wordOfBytes? (bytes : List Nat) : Option Nat :=
  if bytes.length ≤ wordSize then
    some (ofDigits 256 (bytes ++ List.replicate (wordSize - bytes.length) 0))
  else none

/-- The value of a literal, if it is well spelled. -/
def value? (literal : Literal) : Option Nat :=
  match literal.kind with
  | .number => readNumber? literal.spelling.toList
  | .boolean =>
    if literal.spelling = "true" then some 1
    else if literal.spelling = "false" then some 0
    else none
  | .string => wordOfBytes? (literal.spelling.toUTF8.data.toList.map UInt8.toNat)

/-- The value of a literal at a type. -/
def valueAt (literal : Literal) (type : Ir.ValueType) : Except Lowering.Fault Nat :=
  match literal.value? with
  | none => .error (.badLiteral literal.spelling)
  | some value =>
    if type.Holds value then .ok value else .error (.badLiteral literal.spelling)

/-- A literal has the value that its spelling denotes, if that value fits. -/
theorem valueAt_eq_ok_iff {literal : Literal} {type : Ir.ValueType} {value : Nat} :
    literal.valueAt type = .ok value ↔ literal.value? = some value ∧ type.Holds value := by
  unfold valueAt
  cases literal.value? with
  | none => simp
  | some denoted =>
    by_cases fits : type.Holds denoted
    · simp only [fits, if_true, Except.ok.injEq, Option.some.injEq]
      constructor
      · rintro rfl
        exact ⟨rfl, fits⟩
      · exact And.left
    · simp only [fits, if_false, reduceCtorEq, Option.some.injEq, false_iff, not_and]
      rintro rfl
      exact fits

end Literal

end YulLowering
