import YulLowering.Decimal
import YulLowering.Json
import YulLowering.Toml.Text

/-!
# Values without parts

Strings, truth values, numbers, dates and times. Settings hold no number, no date and no time, so of
these only the spelling is checked and next to nothing is kept: a date or a time comes back as a
number without a value.
-/

namespace YulLowering.Toml.Reader

/-! ## Numbers -/

/-- A run of digits, which single underscores may divide into groups. -/
def digits (base : Nat) : Reader (List Nat) := do
  let written ← takeWhile fun next => next == '_' || (digit? base next).isSome
  if ((String.ofList written).splitOn "_").contains "" then failure
  else pure (written.filterMap (digit? base))

/-- The digits in front of a point: a leading zero stands alone. -/
def integerDigits : Reader (List Nat) := do
  match ← digits 10 with
  | 0 :: _ :: _ => failure
  | written => pure written

/-- Drop a sign if one comes next. It says whether it is a minus. -/
def sign : Reader Bool := do
  if ← accept ['-'] then pure true
  else
    let _ ← accept ['+']
    pure false

/-- An integer, for which there are 64 bits, the sign included. -/
def integer (negative : Bool) (size : Nat) : Reader Json.Number :=
  if size < 1 <<< 63 then pure (if negative && size != 0 then .other else .natural size)
  else if negative && size == 1 <<< 63 then pure .other
  else failure

/-- The exponent of a number, if it has one. -/
def exponent? : Reader (Option (Bool × List Nat)) := do
  match ← peek? with
  | some 'e' | some 'E' =>
    advance
    let negative ← sign
    let size ← digits 10
    pure (some (negative, size))
  | _ => pure none

/-- A number in base ten, an infinite one, or none at all. A positive number with a point or an
exponent must not be beyond the finite doubles; a negative one may be, and is then infinite. -/
def decimal : Reader Json.Number := do
  let negative ← sign
  match ← peek? with
  | some 'i' =>
    expect ['i', 'n', 'f']
    pure .other
  | some 'n' =>
    expect ['n', 'a', 'n']
    pure .other
  | _ =>
    let whole ← integerDigits
    let fraction ← if ← accept ['.'] then some <$> digits 10 else pure none
    let number : Decimal := ⟨negative, whole, fraction, ← exponent?⟩
    if number.isInteger then integer negative (ofDigits 10 whole)
    else if ¬ negative ∧ number.isTooLarge then failure
    else pure .other

/-- A number. Those in other bases have no sign. -/
def number : Reader Json.Number := do
  let inBase := fun base => do integer false (ofDigits base (← digits base))
  if ← accept ['0', 'x'] then inBase 16
  else if ← accept ['0', 'o'] then inBase 8
  else if ← accept ['0', 'b'] then inBase 2
  else decimal

/-! ## Dates and times -/

/-- The number of days of a month. -/
def daysOf (year month : Nat) : Nat :=
  match month with
  | 2 => if year % 4 = 0 ∧ (year % 100 ≠ 0 ∨ year % 400 = 0) then 29 else 28
  | 4 | 6 | 9 | 11 => 30
  | _ => 31

/-- A number of two digits within bounds. -/
def pair (least greatest : Nat) : Reader Unit := do
  let value ← fixedDigits 10 2
  if least ≤ value ∧ value ≤ greatest then pure () else failure

/-- A date. -/
def date : Reader Unit := do
  let year ← fixedDigits 10 4
  expect ['-']
  let month ← fixedDigits 10 2
  if 1 ≤ month ∧ month ≤ 12 then
    expect ['-']
    pair 1 (daysOf year month)
  else failure

/-- Hours and minutes. -/
def hoursAndMinutes : Reader Unit := do
  pair 0 23
  expect [':']
  pair 0 59

/-- A time of day. A minute may have a leap second. -/
def time : Reader Unit := do
  hoursAndMinutes
  expect [':']
  pair 0 60
  if ← accept ['.'] then
    let parts ← takeWhile Char.isDigit
    if parts.isEmpty then failure

/-- Whether a date comes next: four digits and a dash. -/
def atDate : Reader Bool := fun text =>
  match text with
  | a :: b :: c :: d :: '-' :: _ => some ([a, b, c, d].all Char.isDigit, text)
  | _ => some (false, text)

/-- Whether a time comes next: two digits and a colon. -/
def atTime : Reader Bool := fun text =>
  match text with
  | a :: b :: ':' :: _ => some ([a, b].all Char.isDigit, text)
  | _ => some (false, text)

/-- Drop what stands between a date and a time if both come next. A blank may stand there, but a blank
that no time follows is not part of the date. -/
def timeMark : Reader Bool := fun text =>
  match text with
  | 'T' :: rest | 't' :: rest => some (true, rest)
  | ' ' :: rest =>
    match atTime rest with
    | some (true, rest) => some (true, rest)
    | _ => some (false, text)
  | _ => some (false, text)

/-- How far a time is from universal time, if that is said. -/
def offset : Reader Unit := do
  match ← peek? with
  | some 'Z' | some 'z' => advance
  | some '+' | some '-' =>
    advance
    hoursAndMinutes
  | _ => pure ()

/-- A date, after which a time may come. -/
def dateAndTime : Reader Unit := do
  date
  if ← timeMark then
    time
    offset

/-! ## All of them -/

/-- A value without parts. -/
def scalar (fuel : Nat) : Reader Json := do
  match ← peek? with
  | some '"' | some '\'' => .string <$> quoted fuel
  | some 't' =>
    expect ['t', 'r', 'u', 'e']
    pure (.bool true)
  | some 'f' =>
    expect ['f', 'a', 'l', 's', 'e']
    pure (.bool false)
  | _ =>
    if ← atDate then
      dateAndTime
      pure (.number .other)
    else if ← atTime then
      time
      pure (.number .other)
    else .number <$> number

end YulLowering.Toml.Reader
