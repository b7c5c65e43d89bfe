import Spead.Flavour.Compat

/-!
Flavours of the protocol.

Every item pointer is one word of 64 bits: a flag, an item id and, in the `addressBits` low bits,
a value or an address into the heap's payload. The width of an address decides all other widths.
-/

namespace Spead

inductive FlavourError where
  | width (addressBits : Nat)
  /-- Peers with deviations exist with addresses of 40 and 48 bits only. -/
  | compatWidth (compat : Compat) (addressBits : Nat)
  deriving DecidableEq, Repr

def FlavourError.message : FlavourError → String
  | .width addressBits =>
      s!"heap_address_bits {addressBits} must be a multiple of 8 between 8 and 56"
  | .compatWidth compat addressBits =>
      s!"bug compatibility {compat.describe} requires 40 or 48 heap address bits, " ++
        s!"got {addressBits}"

/-- The width of a heap address, with the deviations of the peer. -/
structure Flavour where
  addressBits : Nat := 40
  compat : Compat := .none
  addressBits_pos : 0 < addressBits := by decide
  addressBits_lt : addressBits < 64 := by decide
  addressBits_bytes : addressBits % 8 = 0 := by decide
  compat_width : compat ≠ .none → addressBits = 40 ∨ addressBits = 48 := by decide
  deriving DecidableEq, Repr

namespace Flavour

/-- Addresses of forty bits and no deviation. -/
def standard : Flavour := {}

instance : Inhabited Flavour := ⟨standard⟩

/-- The flavour with the given width and deviations, if there is one. -/
def of (addressBits : Nat) (compat : Compat) : Except FlavourError Flavour :=
  if width : 0 < addressBits ∧ addressBits < 64 ∧ addressBits % 8 = 0 then
    if allowed : compat ≠ .none → addressBits = 40 ∨ addressBits = 48 then
      .ok
        { addressBits, compat
          addressBits_pos := width.1
          addressBits_lt := width.2.1
          addressBits_bytes := width.2.2
          compat_width := allowed }
    else
      .error (.compatWidth compat addressBits)
  else
    .error (.width addressBits)

def idBits (flavour : Flavour) : Nat :=
  63 - flavour.addressBits

def maxId (flavour : Flavour) : Nat :=
  2 ^ flavour.idBits - 1

def maxAddress (flavour : Flavour) : Nat :=
  2 ^ flavour.addressBits - 1

def idBytes (flavour : Flavour) : Nat :=
  (64 - flavour.addressBits) / 8

def addressBytes (flavour : Flavour) : Nat :=
  flavour.addressBits / 8

/-- Whether an item of `length` bytes may be sent in its pointer. -/
def fitsImmediate (flavour : Flavour) (length : Nat) : Bool :=
  if flavour.compat.narrowImmediates then
    length < flavour.addressBytes
  else
    length ≤ flavour.addressBytes

def formatFieldBytes (flavour : Flavour) : Nat :=
  if flavour.compat.descriptorWidths then 4 else 9 - flavour.addressBytes

def shapeFieldBytes (flavour : Flavour) : Nat :=
  if flavour.compat.descriptorWidths then 8 else 1 + flavour.addressBytes

def variableTag (flavour : Flavour) : UInt8 :=
  if flavour.compat.shapeBitOne then 2 else 1

end Flavour

/-! ## Item ids -/

namespace ItemId

/-- A pointer without an item. -/
def null : Nat := 0x00
def heapCount : Nat := 0x01
def heapLength : Nat := 0x02
def payloadOffset : Nat := 0x03
def payloadLength : Nat := 0x04
def descriptor : Nat := 0x05
def streamControl : Nat := 0x06
def descriptorName : Nat := 0x10
def descriptorDescription : Nat := 0x11
def descriptorShape : Nat := 0x12
def descriptorFormat : Nat := 0x13
def descriptorId : Nat := 0x14
def descriptorType : Nat := 0x15

/-- The first id for items of an application. -/
def firstUser : Nat := 0x1000

end ItemId

/-! ## Values of the stream control item -/

namespace StreamControl

def start : Nat := 0
def stop : Nat := 2

end StreamControl

def Flavour.isUserId (flavour : Flavour) (id : Nat) : Bool :=
  ItemId.firstUser ≤ id && id ≤ flavour.maxId

end Spead
