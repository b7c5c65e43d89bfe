import Spead.Decimal.Text
import Spead.Text.Quoted
import Spead.Field

/-!
Single fields of records.
-/

namespace Spead

/-- The content of one field of a record. -/
inductive Scalar where
  | uint (value : Nat)
  | int (value : Int)
  | float (value : Binary64)
  | bool (value : Bool)
  | char (value : Char)
  deriving DecidableEq, Repr

namespace Scalar

def kind : Scalar → FieldKind
  | uint _ => .uint
  | int _ => .int
  | float _ => .float
  | bool _ => .bool
  | char _ => .char

def content : Scalar → String
  | uint value => toString value
  | int value => toString value
  | float value => Decimal.renderBinary64 .explicit value
  | bool value => toString value
  | char value => Text.quoteChar value

def describe (scalar : Scalar) : String :=
  scalar.kind.name ++ "(" ++ scalar.content ++ ")"

/-- Equality of contents. Numbers with a point are compared as numbers. -/
def agrees : Scalar → Scalar → Bool
  | float left, float right =>
      FloatFormat.binary64.equal left.bits.toNat right.bits.toNat
  | left, right => left = right

end Scalar
end Spead
