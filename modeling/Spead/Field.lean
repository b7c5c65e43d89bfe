/-!
Fields of bit-packed records.
-/

namespace Spead

/-- What a field of a record holds. -/
inductive FieldKind where
  | uint
  | int
  | float
  | bool
  | char
  deriving DecidableEq, Repr

namespace FieldKind

def name : FieldKind → String
  | uint => "UInt"
  | int => "Int"
  | float => "Float"
  | bool => "Bool"
  | char => "Char"

def code : FieldKind → Char
  | uint => 'u'
  | int => 'i'
  | float => 'f'
  | bool => 'b'
  | char => 'c'

def ofCode? (code : Char) : Option FieldKind :=
  [uint, int, float, bool, char].find? fun kind => kind.code = code

def supports : FieldKind → (bits : Nat) → Bool
  | uint, bits => 1 ≤ bits && bits ≤ 64
  | int, bits => 1 ≤ bits && bits ≤ 64
  | bool, bits => 1 ≤ bits && bits ≤ 64
  | float, bits => bits = 32 || bits = 64
  | char, bits => 1 ≤ bits && bits ≤ 8

end FieldKind

/-- A field of a record, with its width in bits. -/
structure Field where
  kind : FieldKind
  bits : Nat
  supported : kind.supports bits = true := by decide
  deriving DecidableEq, Repr

/-- The field with a given letter and width, if there is one. -/
def Field.of? (code : Char) (bits : Nat) : Option Field := do
  let kind ← FieldKind.ofCode? code
  if supported : kind.supports bits = true then
    some { kind, bits, supported }
  else
    none

end Spead
