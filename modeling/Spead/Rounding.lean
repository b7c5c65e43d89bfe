/-!
Rounding a quotient to a whole number.
-/

namespace Spead

/-- The whole number nearest to `numerator / denominator`; of two equally near ones the even. -/
def roundHalfEven (numerator denominator : Nat) : Nat :=
  let quotient := numerator / denominator
  let twice := 2 * (numerator % denominator)
  if twice < denominator then
    quotient
  else if denominator < twice then
    quotient + 1
  else
    quotient + quotient % 2

/-- `numerator / denominator * base ^ exponent` as a fraction again. -/
def scaleFraction (base : Nat) (exponent : Int) (numerator denominator : Nat) : Nat × Nat :=
  if exponent < 0 then
    (numerator, denominator * base ^ exponent.natAbs)
  else
    (numerator * base ^ exponent.natAbs, denominator)

end Spead
