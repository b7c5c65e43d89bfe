/-!
What can go wrong with bit fields.
-/

namespace Spead
namespace Bits

/-- The widest field that is moved in one step. -/
def maxFieldBits : Nat := 64

inductive Error where
  /-- Fewer bits are left than were asked for. -/
  | unexpectedEnd (requested available : Nat)
  /-- The field is wider than `maxFieldBits`. -/
  | tooWide (count : Nat)
  deriving DecidableEq, Repr

def Error.message : Error → String
  | .unexpectedEnd requested available =>
      s!"unexpected end of bit stream: requested {requested} bits, {available} available"
  | .tooWide count => s!"invalid bit count: {count}"

end Bits
end Spead
