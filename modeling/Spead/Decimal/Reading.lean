import Spead.Bytes
import Spead.FloatingPoint

/-!
Reading numbers from text.
-/

namespace Spead
namespace Decimal

/-- The value of a list of decimal digits; nothing if there is none or one is not a digit. -/
def readDigits? (digits : List Char) : Option Nat :=
  if digits.isEmpty || !digits.all Char.isDigit then
    none
  else
    some (digits.foldl (fun value digit => value * 10 + (digit.toNat - '0'.toNat)) 0)

/-- An unsigned number below `limit`, with an optional plus sign. -/
def readBelow? (limit : Nat) (text : List Char) : Option Nat := do
  let digits :=
    match text with
    | '+' :: rest => rest
    | unsigned => unsigned
  let value ← readDigits? digits
  if value < limit then some value else none

def readWord? (text : List Char) : Option Nat :=
  readBelow? wordLimit text

def splitSign : List Char → Bool × List Char
  | '-' :: rest => (true, rest)
  | '+' :: rest => (false, rest)
  | unsigned => (false, unsigned)

/-- The exponent of a numeral: nothing written means zero. -/
def readExponent? : List Char → Option Int
  | [] => some 0
  | mark :: text =>
      if mark = 'e' || mark = 'E' then
        let (negative, digits) := splitSign text
        (readDigits? digits).map fun value =>
          if negative then -(value : Int) else (value : Int)
      else
        none

/-- Bring an exponent into the range beyond which every numeral of `digitCount` digits is zero
or infinite as a number of 64 bits. -/
def clampExponent (digitCount : Nat) (exponent : Int) : Int :=
  max (-(400 + digitCount : Int)) (min 400 exponent)

/-- An unsigned numeral: digits with at most one point among them, at least one digit in all, and
an optional exponent. -/
def readUnsigned? (negative : Bool) (text : List Char) : Option Binary64 := do
  let whole := text.takeWhile Char.isDigit
  let afterWhole := text.dropWhile Char.isDigit
  let (places, rest) :=
    match afterWhole with
    | '.' :: afterPoint => (afterPoint.takeWhile Char.isDigit, afterPoint.dropWhile Char.isDigit)
    | noPoint => ([], noPoint)
  let value ← readDigits? (whole ++ places)
  let exponent ← readExponent? rest
  let digitCount := whole.length + places.length
  return Binary64.ofDecimal negative value
    (clampExponent digitCount (exponent - places.length))

/-- A number of 64 bits: a numeral, `inf`, `infinity` or `nan` in any case, with a sign. -/
def readBinary64? (text : String) : Option Binary64 :=
  let (negative, unsigned) := splitSign text.toList
  let word := String.ofList (unsigned.map Char.toLower)
  let signed (magnitude : Nat) :=
    some (Binary64.ofWord (FloatFormat.binary64.withSign negative magnitude))
  if word = "inf" || word = "infinity" then
    signed FloatFormat.binary64.infinity
  else if word = "nan" then
    signed FloatFormat.binary64.quietNaN
  else
    readUnsigned? negative unsigned

end Decimal
end Spead
