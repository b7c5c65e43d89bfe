import Spead.FloatingPoint

/-!
The shortest decimal numeral that reads back as a given floating-point number.

The reals that round to a number form an interval around it, whose ends belong to it when the
significand is even. Of the grids of multiples of a power of ten the coarsest one that meets the
interval is taken; of its two points beside the number the nearer one in the interval, and of two
equally near ones the upper.
-/

namespace Spead
namespace Decimal

/-- `digits * 10 ^ exponent`. -/
structure Numeral where
  digits : Nat
  exponent : Int
  deriving DecidableEq, Repr

/-- The interval of the reals that round to a number, as numerators over a common denominator. -/
structure RoundingInterval where
  low : Nat
  value : Nat
  high : Nat
  denominator : Nat
  closed : Bool
  deriving DecidableEq, Repr

/-- The interval of the finite number `significand * 2 ^ exponent`. Below a power of two the
numbers are twice as dense, so the interval reaches half as far down. -/
def RoundingInterval.of
    (format : FloatFormat) (significand : Nat) (exponent : Int) : RoundingInterval :=
  let denser :=
    significand = 2 ^ format.fractionBits && format.leastExponent < exponent
  let (unit, denominator) := scaleFraction 2 exponent 1 4
  { low := (4 * significand - if denser then 1 else 2) * unit
    value := 4 * significand * unit
    high := (4 * significand + 2) * unit
    denominator := denominator
    closed := significand % 2 = 0 }

/-- Whether `numerator / denominator` lies in the interval, given over its own denominator. -/
def RoundingInterval.holds (interval : RoundingInterval) (numerator : Nat) : Bool :=
  if interval.closed then
    interval.low ≤ numerator && numerator ≤ interval.high
  else
    interval.low < numerator && numerator < interval.high

/-- The point of the grid of multiples of `10 ^ exponent` nearest to the number, among those that
lie in the interval; of two equally near ones the upper. -/
def RoundingInterval.onGrid?
    (interval : RoundingInterval) (exponent : Int) : Option Numeral :=
  let (step, scale) := scaleFraction 10 exponent interval.denominator 1
  let scaled : RoundingInterval :=
    { interval with
      low := interval.low * scale
      value := interval.value * scale
      high := interval.high * scale }
  let below := scaled.value / step
  let above := below + 1
  let belowFits := scaled.holds (below * step)
  let aboveFits := scaled.holds (above * step)
  if belowFits && aboveFits then
    if 2 * (scaled.value % step) < step then
      some ⟨below, exponent⟩
    else
      some ⟨above, exponent⟩
  else if belowFits then
    some ⟨below, exponent⟩
  else if aboveFits then
    some ⟨above, exponent⟩
  else
    none

/-- Search grids from `exponent` on down, at most `grids` of them. -/
def RoundingInterval.search
    (interval : RoundingInterval) : (grids : Nat) → (exponent : Int) → Numeral
  | 0, exponent => ⟨0, exponent⟩
  | grids + 1, exponent =>
      match interval.onGrid? exponent with
      | some numeral => numeral
      | none => search interval grids (exponent - 1)

/-- The shortest numeral of a positive finite number. The search starts above the number's own
size; seventeen digits always suffice. -/
def shortest
    (format : FloatFormat) (significand : Nat) (exponent : Int) : Numeral :=
  let bitLength : Int := significand.log2 + 1 + exponent
  let start := bitLength * 30103 / 100000 + 2
  (RoundingInterval.of format significand exponent).search 24 start

end Decimal
end Spead
