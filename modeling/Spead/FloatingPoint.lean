import Spead.Rounding

/-!
Binary floating-point numbers of 32 and 64 bits.

A number is its word of bits; all arithmetic decodes the words, computes exactly with whole
numbers and rounds once, to nearest with ties to even.
-/

namespace Spead

/-- The widths of the fields of a binary interchange format, below its sign bit. -/
structure FloatFormat where
  fractionBits : Nat
  exponentBits : Nat
  deriving DecidableEq, Repr

namespace FloatFormat

def binary32 : FloatFormat := ⟨23, 8⟩

def binary64 : FloatFormat := ⟨52, 11⟩

/-- The exponent field of infinities and NaNs. -/
def topExponent (format : FloatFormat) : Nat :=
  2 ^ format.exponentBits - 1

/-- The power of two that the last place of the smallest numbers stands for. -/
def leastExponent (format : FloatFormat) : Int :=
  2 - 2 ^ (format.exponentBits - 1) - format.fractionBits

def infinity (format : FloatFormat) : Nat :=
  format.topExponent * 2 ^ format.fractionBits

/-- The word of negative zero, which is the sign bit alone. -/
def signBit (format : FloatFormat) : Nat :=
  2 ^ (format.fractionBits + format.exponentBits)

/-- The word of a NaN without further payload. -/
def quietNaN (format : FloatFormat) : Nat :=
  format.infinity + 2 ^ (format.fractionBits - 1)

end FloatFormat

/-- What a word of a floating-point format says. -/
inductive FloatDatum where
  | nan (negative : Bool) (payload : Nat)
  | infinite (negative : Bool)
  /-- `significand * 2 ^ exponent`, negated if `negative`. -/
  | finite (negative : Bool) (significand : Nat) (exponent : Int)
  deriving DecidableEq, Repr

namespace FloatFormat

def decode (format : FloatFormat) (word : Nat) : FloatDatum :=
  let negative := format.signBit ≤ word % (2 * format.signBit)
  let magnitude := word % format.signBit
  let exponentField := magnitude / 2 ^ format.fractionBits
  let fraction := magnitude % 2 ^ format.fractionBits
  if exponentField = format.topExponent then
    if fraction = 0 then .infinite negative else .nan negative fraction
  else if exponentField = 0 then
    .finite negative fraction format.leastExponent
  else
    .finite negative (2 ^ format.fractionBits + fraction)
      (format.leastExponent + exponentField - 1)

/-- The largest exponent of a power of two that is at most `numerator / denominator`. -/
def floorLog (numerator denominator : Nat) : Int :=
  let guess : Int := (numerator.log2 : Int) - (denominator.log2 : Int)
  let (scaled, unit) := scaleFraction 2 (-guess) numerator denominator
  if scaled < unit then guess - 1 else guess

/-- The word, without sign, nearest to `numerator / denominator`. The exponent of the last place
is the one that leaves `fractionBits + 1` digits, but not below the least exponent. A significand
that rounds up to the next power of two carries into the exponent field by itself. -/
def encodeRatio (format : FloatFormat) (numerator denominator : Nat) : Nat :=
  if numerator = 0 then
    0
  else
    let place :=
      max (floorLog numerator denominator - format.fractionBits) format.leastExponent
    let (scaled, unit) := scaleFraction 2 (-place) numerator denominator
    min format.infinity
      ((place - format.leastExponent).toNat * 2 ^ format.fractionBits +
        roundHalfEven scaled unit)

def withSign (format : FloatFormat) (negative : Bool) (magnitude : Nat) : Nat :=
  if negative then format.signBit + magnitude else magnitude

/-- The word nearest to a datum. A NaN keeps the leading bits of its payload and becomes quiet. -/
def encode (format : FloatFormat) : FloatDatum → Nat
  | .nan negative payload =>
      format.withSign negative
        (format.infinity + 2 ^ (format.fractionBits - 1) +
          payload % 2 ^ (format.fractionBits - 1))
  | .infinite negative => format.withSign negative format.infinity
  | .finite negative significand exponent =>
      let (numerator, denominator) := scaleFraction 2 exponent significand 1
      format.withSign negative (format.encodeRatio numerator denominator)

/-- Change the width of a NaN's payload; other data stay as they are. -/
def alignPayload (source target : FloatFormat) : FloatDatum → FloatDatum
  | .nan negative payload =>
      .nan negative (payload * 2 ^ target.fractionBits / 2 ^ source.fractionBits)
  | datum => datum

/-- The number of format `target` nearest to a number of format `source`. -/
def convert (source target : FloatFormat) (word : Nat) : Nat :=
  target.encode (alignPayload source target (source.decode word))

/-- Equality of numbers: zeros are equal whatever their sign and a NaN equals nothing. -/
def equal (format : FloatFormat) (left right : Nat) : Bool :=
  match format.decode left, format.decode right with
  | .nan .., _ => false
  | _, .nan .. => false
  | .finite _ 0 _, .finite _ 0 _ => true
  | leftDatum, rightDatum => leftDatum = rightDatum

end FloatFormat

/-- A number of 64 bits. -/
structure Binary64 where
  bits : UInt64
  deriving DecidableEq, Repr

namespace Binary64

open FloatFormat

def ofWord (word : Nat) : Binary64 :=
  ⟨UInt64.ofNat word⟩

def datum (number : Binary64) : FloatDatum :=
  binary64.decode number.bits.toNat

def ofRatio (numerator denominator : Nat) : Binary64 :=
  ofWord (binary64.encodeRatio numerator denominator)

def ofNat (value : Nat) : Binary64 :=
  ofRatio value 1

instance : Inhabited Binary64 := ⟨ofNat 0⟩

/-- A number that is not negative as a fraction; negative numbers, infinities and NaNs give
nothing. -/
def fraction? (number : Binary64) : Option (Nat × Nat) :=
  match number.datum with
  | .finite negative significand exponent =>
      if negative && significand != 0 then
        none
      else
        some (scaleFraction 2 exponent significand 1)
  | _ => none

/-- Quotient of two numbers that are not negative and whose divisor is not zero. -/
def divide (left right : Binary64) : Binary64 :=
  match left.fraction?, right.fraction? with
  | some (leftNumerator, leftDenominator), some (rightNumerator, rightDenominator) =>
      ofRatio (leftNumerator * rightDenominator) (leftDenominator * rightNumerator)
  | _, _ => ofWord binary64.quietNaN

/-- The share of `part` in `whole`, which is zero if there is nothing. -/
def share (part whole : Nat) : Binary64 :=
  if whole = 0 then ofNat 0 else (ofNat part).divide (ofNat whole)

/-- Product of two finite numbers. -/
def multiply (left right : Binary64) : Binary64 :=
  match left.datum, right.datum with
  | .finite leftNegative leftSignificand leftExponent,
      .finite rightNegative rightSignificand rightExponent =>
      ofWord (binary64.encode
        (.finite (leftNegative != rightNegative) (leftSignificand * rightSignificand)
          (leftExponent + rightExponent)))
  | _, _ => ofWord binary64.quietNaN

/-- The number nearest to `value * 10 ^ exponent`, with a sign. -/
def ofDecimal (negative : Bool) (value : Nat) (exponent : Int) : Binary64 :=
  let (numerator, denominator) := scaleFraction 10 exponent value 1
  ofWord (binary64.withSign negative (binary64.encodeRatio numerator denominator))

/-- The sum of two numbers that are not negative. -/
def add (left right : Binary64) : Binary64 :=
  match left.fraction?, right.fraction? with
  | some (leftNumerator, leftDenominator), some (rightNumerator, rightDenominator) =>
      ofRatio
        (leftNumerator * rightDenominator + rightNumerator * leftDenominator)
        (leftDenominator * rightDenominator)
  | _, _ => ofWord binary64.quietNaN

/-- Whether a number is less than another one. A NaN is neither less nor greater than anything. -/
def less (left right : Binary64) : Bool :=
  let signed (negative : Bool) (magnitude : Nat) : Int :=
    if negative then -magnitude else magnitude
  match left.datum, right.datum with
  | .nan .., _ => false
  | _, .nan .. => false
  | .infinite negative, .infinite other => negative && !other
  | .infinite negative, .finite .. => negative
  | .finite .., .infinite negative => !negative
  | .finite leftNegative leftSignificand leftExponent,
      .finite rightNegative rightSignificand rightExponent =>
      let (leftNumerator, leftDenominator) := scaleFraction 2 leftExponent leftSignificand 1
      let (rightNumerator, rightDenominator) := scaleFraction 2 rightExponent rightSignificand 1
      signed leftNegative (leftNumerator * rightDenominator) <
        signed rightNegative (rightNumerator * leftDenominator)

/-- The lesser of two numbers, neither of which is a NaN. -/
def minimum (left right : Binary64) : Binary64 :=
  if right.less left then right else left

/-- Whether a number is between zero and one, both included. -/
def isUnitInterval (number : Binary64) : Bool :=
  match number.fraction? with
  | some (numerator, denominator) => numerator ≤ denominator
  | none => false

end Binary64
end Spead
