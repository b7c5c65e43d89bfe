import Spead.Packet.Basic

/-!
Packets as bytes.

`toBytes` is what is put on the wire once every field is known to fit, `serialize` checks that
they do, and `parse` reads the packet that a string of bytes begins with.
-/

namespace Spead
namespace Packet

def wordBytes (word : UInt64) : Bytes :=
  Bytes.bigEndian pointerSize word.toNat

def toBytes (packet : Packet) : Bytes :=
  let addressBytes := packet.addressBits / 8
  let count := PacketItem.all.length + packet.pointers.length
  let own := PacketItem.all.map fun item =>
    Pointer.toWord packet.addressBits ⟨item.id, true, packet.itemValue item⟩
  [packetMagic, packetVersion, UInt8.ofNat (8 - addressBytes), UInt8.ofNat addressBytes, 0, 0] ++
    Bytes.bigEndian 2 count ++ (own ++ packet.pointers).flatMap wordBytes ++ packet.payload

/-! ## Writing -/

def checkFits (flavour : Flavour) (item : PacketItem) (value : Nat) : Except PacketError Unit :=
  if flavour.maxAddress < value then
    .error (.fieldOverflow (.packetItem item) value flavour.addressBits)
  else
    .ok ()

def checkPointerCount (count : Nat) : Except PacketError Unit :=
  if maxPointers < PacketItem.all.length + count then
    .error (.tooManyItems count)
  else
    .ok ()

def serialize (packet : Packet) : Except Error Bytes := do
  let flavour ← Flavour.of packet.addressBits .none
  if packet.payloadLength ≠ packet.payload.length then
    throw (PacketError.payloadLengthMismatch packet.payloadLength packet.payload.length : Error)
  checkPointerCount packet.pointers.length
  checkFits flavour .heapCount packet.heapCount
  checkFits flavour .heapLength packet.heapLength
  checkFits flavour .payloadOffset packet.payloadOffset
  return packet.toBytes

/-! ## Reading -/

/-- The number of address bytes that a header declares, if the two widths make up a word. -/
def readWidths (idBytes addressBytes : Nat) : Except PacketError Flavour :=
  match Flavour.of (addressBytes * 8) .none with
  | .ok flavour =>
      if idBytes + addressBytes = 8 then
        .ok flavour
      else
        .error (.invalidFlavour idBytes addressBytes)
  | .error _ => .error (.invalidFlavour idBytes addressBytes)

/-- Whether an id is one of those that packets use for themselves. -/
def isPacketItemId (id : Nat) : Bool :=
  PacketItem.all.any fun item => item.id = id

/-- The value of a packet item in a pointer table; the last pointer with its id counts. -/
def findItem (table : List Pointer) (item : PacketItem) : Except PacketError Nat :=
  match (table.filter fun pointer => pointer.id = item.id).getLast? with
  | some pointer => .ok pointer.value
  | none => .error (.missingItem (.packetItem item))

/-- Read a packet from its pointer table and from what follows the table. -/
def ofTable (flavour : Flavour) (words : List UInt64) (behind : Bytes) :
    Except PacketError Packet := do
  let table := words.map flavour.decodePointer
  let misplaced := table.find? fun pointer => isPacketItemId pointer.id && !pointer.immediate
  if let some pointer := misplaced then
    throw (.notImmediate pointer.id)
  let heapCount ← findItem table .heapCount
  let heapLength ← findItem table .heapLength
  let payloadOffset ← findItem table .payloadOffset
  let payloadLength ← findItem table .payloadLength
  if behind.length < payloadLength then
    throw (.payloadLengthMismatch payloadLength behind.length)
  if heapLength < payloadOffset + payloadLength then
    throw (.payloadOutOfRange payloadOffset payloadLength heapLength)
  return {
    heapCount, heapLength, payloadOffset, payloadLength
    addressBits := flavour.addressBits
    pointers := words.filter fun word => !isPacketItemId (flavour.decodePointer word).id
    payload := behind.take payloadLength }

/-- Read the packet at the front of `bytes`, with the number of bytes that it takes. -/
def parse (bytes : Bytes) : Except PacketError (Packet × Nat) :=
  match bytes with
  | magic :: version :: idBytes :: addressBytes :: _ :: _ :: high :: low :: rest => do
      if magic ≠ packetMagic then
        throw (.invalidMagic magic)
      if version ≠ packetVersion then
        throw (.invalidVersion version)
      let flavour ← readWidths idBytes.toNat addressBytes.toNat
      let count := Bytes.toNat [high, low]
      let tableSize := count * pointerSize
      if rest.length < tableSize then
        throw (.tooShort (headerSize + tableSize) bytes.length)
      let words := (Bytes.chunks pointerSize count rest).map fun chunk =>
        UInt64.ofNat (Bytes.toNat chunk)
      let packet ← ofTable flavour words (rest.drop tableSize)
      return (packet, headerSize + tableSize + packet.payloadLength)
  | _ => .error (.tooShort headerSize bytes.length)

end Packet
end Spead
