/-!
# Digits

The value of digits in a base of at most sixteen, and the number that a run of them stands for.
-/

namespace YulLowering

/-- The value of a digit below a base. Letters count in either case. -/
def digit? (base : Nat) (character : Char) : Option Nat :=
  let value? :=
    if '0' ≤ character ∧ character ≤ '9' then some (character.toNat - '0'.toNat)
    else if 'a' ≤ character ∧ character ≤ 'f' then some (character.toNat - 'a'.toNat + 10)
    else if 'A' ≤ character ∧ character ≤ 'F' then some (character.toNat - 'A'.toNat + 10)
    else none
  value?.filter fun value => value < base

/-- The number that digits, the most significant one first, stand for in a base. -/
def ofDigits (base : Nat) (digits : List Nat) : Nat :=
  digits.foldl (fun value digit => value * base + digit) 0

/-- A digit is smaller than its base. -/
theorem digit?_lt {base value : Nat} {character : Char} (read : digit? base character = some value) :
    value < base := by
  simp only [digit?, Option.filter_eq_some_iff, decide_eq_true_eq] at read
  exact read.2

@[simp] theorem ofDigits_nil (base : Nat) : ofDigits base [] = 0 := rfl

/-- A further digit moves those before it up by one place. -/
theorem ofDigits_concat (base : Nat) (digits : List Nat) (digit : Nat) :
    ofDigits base (digits ++ [digit]) = ofDigits base digits * base + digit := by
  simp [ofDigits]

end YulLowering
