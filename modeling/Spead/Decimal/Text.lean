import Spead.Decimal.Shortest

/-!
Numbers as text.
-/

namespace Spead
namespace Decimal

/-- How a floating-point number is laid out. -/
structure Layout where
  /-- Whether a number far from one is written with an exponent. -/
  scientific : Bool
  /-- Whether a whole number is written with a digit after the point. -/
  pointAlways : Bool
  deriving DecidableEq, Repr

/-- The layout that shows the type of a number: `1.0`, `1e16`, `1e-7`. -/
def Layout.explicit : Layout := ⟨true, true⟩

/-- The plain layout: `1`, `10000000000000000`, `0.0000001`. -/
def Layout.plain : Layout := ⟨false, false⟩

/-- Digits with a point after the first `whole` of them, which may lie outside of them. -/
def placePoint (layout : Layout) (digits : List Char) (whole : Int) : String :=
  if whole ≤ 0 then
    String.ofList ('0' :: '.' :: List.replicate whole.natAbs '0' ++ digits)
  else
    let before := digits.take whole.natAbs
    let filled := before ++ List.replicate (whole.natAbs - before.length) '0'
    let after := digits.drop whole.natAbs
    if after.isEmpty then
      String.ofList filled ++ if layout.pointAlways then ".0" else ""
    else
      String.ofList (filled ++ '.' :: after)

/-- Digits with a point after the first of them and a power of ten. -/
def withExponent (digits : List Char) (exponent : Int) : String :=
  let mantissa :=
    match digits with
    | first :: second :: rest => first :: '.' :: second :: rest
    | short => short
  String.ofList mantissa ++ s!"e{exponent}"

/-- A numeral in the given layout. With exponents, positional notation is for numbers from
one ten-thousandth up to, but not including, ten to the sixteenth. -/
def Numeral.render (layout : Layout) (numeral : Numeral) : String :=
  let digits := Nat.toDigits 10 numeral.digits
  let whole : Int := digits.length + numeral.exponent
  if layout.scientific && (whole ≤ -4 || 16 < whole) then
    withExponent digits (whole - 1)
  else
    placePoint layout digits whole

/-- A number of 64 bits with the fewest digits that read back. -/
def renderBinary64 (layout : Layout) (number : Binary64) : String :=
  match number.datum with
  | .nan .. => "NaN"
  | .infinite negative => (if negative then "-" else "") ++ "inf"
  | .finite negative significand exponent =>
      (if negative then "-" else "") ++
        if significand = 0 then
          if layout.pointAlways then "0.0" else "0"
        else
          (shortest .binary64 significand exponent).render layout

/-- A fraction with two digits after the point, rounded to nearest with ties to even. -/
def twoPlaces (numerator denominator : Nat) : String :=
  let hundredths := roundHalfEven (numerator * 100) denominator
  let after := hundredths % 100
  s!"{hundredths / 100}." ++ (if after < 10 then "0" else "") ++ toString after

/-- A number of 64 bits that is not negative with two digits after the point. -/
def twoPlacesBinary64 (number : Binary64) : String :=
  match number.datum with
  | .nan .. => "NaN"
  | .infinite negative => (if negative then "-" else "") ++ "inf"
  | .finite negative significand exponent =>
      let (numerator, denominator) := scaleFraction 2 exponent significand 1
      (if negative then "-" else "") ++ twoPlaces numerator denominator

def percentage (rate : Binary64) : String :=
  twoPlacesBinary64 (rate.multiply (.ofNat 100)) ++ "%"

end Decimal
end Spead
