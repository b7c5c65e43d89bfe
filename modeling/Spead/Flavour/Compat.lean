/-!
Deviations from the protocol made by older peers.
-/

namespace Spead

structure Compat where
  /-- Format fields of a descriptor take four bytes and shape fields eight, whatever the width of
  a heap address. -/
  descriptorWidths : Bool := false
  /-- A variable dimension is marked by bit one instead of bit zero. -/
  shapeBitOne : Bool := false
  /-- The element type in a descriptor declares the opposite byte order to the data. -/
  swapEndian : Bool := false
  /-- Only an item strictly shorter than the immediate field is sent in its pointer. -/
  narrowImmediates : Bool := false
  deriving DecidableEq, Repr

namespace Compat

def none : Compat := {}

def legacy : Compat := ⟨true, true, true, true⟩

instance : Inhabited Compat := ⟨none⟩

/-- The deviations in the order of their bits, with whether they are made. -/
def flags (compat : Compat) : List (String × Bool) :=
  [("DESCRIPTOR_WIDTHS", compat.descriptorWidths),
    ("SHAPE_BIT_1", compat.shapeBitOne),
    ("SWAP_ENDIAN", compat.swapEndian),
    ("NARROW_IMMEDIATES", compat.narrowImmediates)]

def toMask (compat : Compat) : Nat :=
  compat.descriptorWidths.toNat + 2 * compat.shapeBitOne.toNat +
    4 * compat.swapEndian.toNat + 8 * compat.narrowImmediates.toNat

/-- The deviations named by the four low bits of `mask`. -/
def ofMask (mask : Nat) : Compat :=
  ⟨mask.testBit 0, mask.testBit 1, mask.testBit 2, mask.testBit 3⟩

def union (left right : Compat) : Compat :=
  ⟨left.descriptorWidths || right.descriptorWidths,
    left.shapeBitOne || right.shapeBitOne,
    left.swapEndian || right.swapEndian,
    left.narrowImmediates || right.narrowImmediates⟩

def describe (compat : Compat) : String :=
  let names := compat.flags.filterMap fun (name, made) =>
    if made then some name else Option.none
  "BugCompat(" ++ (if names.isEmpty then "0x0" else " | ".intercalate names) ++ ")"

/-- The deviations with a given configuration name. Case does not matter, and a hyphen stands for
an underscore. -/
def ofName? (name : String) : Option Compat :=
  let canonical := name.map fun char => if char = '-' then '_' else char.toLower
  if canonical = "descriptor_widths" then
    some { descriptorWidths := true }
  else if canonical = "shape_bit_1" then
    some { shapeBitOne := true }
  else if canonical = "swap_endian" then
    some { swapEndian := true }
  else if canonical = "narrow_immediates" then
    some { narrowImmediates := true }
  else if canonical = "pyspead_0_5_2" || canonical = "pyspead" then
    some legacy
  else
    Option.none

end Compat
end Spead
