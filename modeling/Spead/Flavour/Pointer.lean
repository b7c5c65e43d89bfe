import Spead.Error

/-!
Item pointers: one word of 64 bits for each item of a heap.

From the top bit down a word holds a flag, an item id and a value. The flag says whether the value
is the item itself, as an immediate, or an address in the heap's payload.
-/

namespace Spead

/-- A word with the flag of immediates only. -/
def immediateFlag : Nat := 2 ^ 63

structure Pointer where
  id : Nat
  immediate : Bool
  value : Nat
  deriving DecidableEq, Repr

namespace Pointer

/-- Put a pointer together, with addresses of the given width. The bits of a value that is wider
than an address are set in the id. -/
def toWord (addressBits : Nat) (pointer : Pointer) : UInt64 :=
  UInt64.ofNat
    ((pointer.immediate.toNat * immediateFlag + pointer.id * 2 ^ addressBits) ||| pointer.value)

/-- Take a word apart, with addresses of the given width. -/
def ofWord (addressBits : Nat) (word : UInt64) : Pointer :=
  { id := word.toNat % immediateFlag / 2 ^ addressBits
    immediate := immediateFlag ≤ word.toNat
    value := word.toNat % 2 ^ addressBits }

end Pointer

namespace Flavour

def encodePointer
    (flavour : Flavour) (valueField : WireField) (pointer : Pointer) :
    Except PacketError UInt64 :=
  if flavour.maxId < pointer.id then
    .error (.fieldOverflow .itemId pointer.id flavour.idBits)
  else if flavour.maxAddress < pointer.value then
    .error (.fieldOverflow valueField pointer.value flavour.addressBits)
  else
    .ok (pointer.toWord flavour.addressBits)

def encodeImmediate (flavour : Flavour) (id value : Nat) : Except PacketError UInt64 :=
  flavour.encodePointer .immediateValue ⟨id, true, value⟩

def encodeAddress (flavour : Flavour) (id address : Nat) : Except PacketError UInt64 :=
  flavour.encodePointer .heapAddress ⟨id, false, address⟩

def decodePointer (flavour : Flavour) (word : UInt64) : Pointer :=
  Pointer.ofWord flavour.addressBits word

def immediateBytes (flavour : Flavour) (value : Nat) : Bytes :=
  Bytes.bigEndian flavour.addressBytes value

end Flavour
end Spead
