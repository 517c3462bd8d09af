import YulLowering.Digits

/-!
# Decimal numbers as they are written

A number in a text is a sign, digits in front of a point, digits after it and a power of ten. What it
is worth is asked only as far as it decides whether a text is accepted: whether a double can hold it.
-/

namespace YulLowering

/-- A decimal number as it is written. -/
structure Decimal where
  negative : Bool
  /-- The digits in front of the point. -/
  integer : List Nat
  /-- The digits after the point, if there is one. -/
  fraction : Option (List Nat)
  /-- The digits of the exponent and whether it is negative. -/
  exponent : Option (Bool × List Nat)
deriving DecidableEq, Repr, Inhabited

/-- The least number that no longer rounds to a finite double. -/
def doubleOverflow : Nat := (1 <<< 1024) - (1 <<< 970)

namespace Decimal

/-- The digits after the point. -/
def fractionDigits (number : Decimal) : List Nat :=
  number.fraction.getD []

/-- The power of ten that the exponent names. -/
def power (number : Decimal) : Int :=
  match number.exponent with
  | some (true, size) => -(ofDigits 10 size : Int)
  | some (false, size) => ofDigits 10 size
  | none => 0

/-- Whether a number is written without a point and without an exponent. -/
def isInteger (number : Decimal) : Bool :=
  number.fraction.isNone && number.exponent.isNone

/-- Whether the size of a number is beyond the finite doubles. The least such number has 309 digits in
front of its point, so only a number with just as many has to be worked out. -/
def isTooLarge (number : Decimal) : Bool :=
  let significant := (number.integer ++ number.fractionDigits).dropWhile (· == 0)
  let scale := number.power - (number.fractionDigits.length : Int)
  let places := (significant.length : Int) + scale
  !significant.isEmpty &&
    (309 < places ||
      (places == 309 &&
        doubleOverflow * Nat.pow 10 (-scale).toNat ≤
          ofDigits 10 significant * Nat.pow 10 scale.toNat))

/-- A number without a digit other than zero has a double, whatever its exponent. -/
theorem isTooLarge_of_zeros {number : Decimal}
    (zeros : ∀ digit ∈ number.integer ++ number.fractionDigits, digit = 0) :
    number.isTooLarge = false := by
  have none_significant :
      (number.integer ++ number.fractionDigits).dropWhile (· == 0) = [] := by
    generalize number.integer ++ number.fractionDigits = digits at zeros
    induction digits with
    | nil => rfl
    | cons digit rest ih =>
      have zero : digit = 0 := zeros digit List.mem_cons_self
      have rest_zeros := fun other member => zeros other (List.mem_cons_of_mem digit member)
      simp only [List.dropWhile_cons, zero, beq_self_eq_true, if_true]
      exact ih rest_zeros
  simp only [isTooLarge, none_significant, List.isEmpty_nil, Bool.not_true, Bool.false_and]

end Decimal

end YulLowering
