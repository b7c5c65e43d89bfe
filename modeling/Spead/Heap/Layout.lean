import Spead.Heap.Basic

/-!
Heaps laid out for the wire: the pointer table and the payload, and their division into packets.
-/

namespace Spead

/-- A pointer table under construction, with the payload that it points into. -/
structure Layout where
  /-- Pointers, the latest first. -/
  pointers : List UInt64 := []
  /-- Pieces of the payload, the latest first. -/
  pieces : List Bytes := []
  payloadLength : Nat := 0
  deriving DecidableEq, Repr

namespace Layout

def addImmediate (flavour : Flavour) (layout : Layout) (id value : Nat) :
    Except PacketError Layout := do
  let pointer ← flavour.encodeImmediate id value
  return { layout with pointers := pointer :: layout.pointers }

def addPiece (flavour : Flavour) (layout : Layout) (id : Nat) (data : Bytes) :
    Except PacketError Layout := do
  let pointer ← flavour.encodeAddress id layout.payloadLength
  return {
    pointers := pointer :: layout.pointers
    pieces := data :: layout.pieces
    payloadLength := layout.payloadLength + data.length }

def addItem (flavour : Flavour) (layout : Layout) (item : HeapItem) :
    Except PacketError Layout :=
  match item.content with
  | .inline value => layout.addImmediate flavour item.id value
  | .bytes data allowImmediate =>
      if allowImmediate && flavour.fitsImmediate data.length then
        layout.addImmediate flavour item.id (Bytes.toNat data)
      else
        layout.addPiece flavour item.id data

end Layout

namespace Heap

/-- The pointer table and the payload, in the order of the items. -/
def layout (heap : Heap) : Except PacketError (List UInt64 × Bytes) := do
  let layout ← heap.items.foldlM (Layout.addItem heap.flavour) {}
  return (layout.pointers.reverse, layout.pieces.reverse.flatten)

/-- Number of packets for a payload that is cut into slices of `sliceSize` bytes. A heap without
payload takes one packet too. -/
def packetCount (sliceSize payloadLength : Nat) : Nat :=
  max 1 ((payloadLength + sliceSize - 1) / sliceSize)

end Heap

/-! ## Packets -/

/-- A heap that is cut into packets, which are handed out one after the other. -/
structure Packetizer where
  /-- The number of the heap. -/
  heapCount : Nat
  addressBits : Nat
  pointers : List UInt64
  /-- Length of the whole payload. -/
  heapLength : Nat
  /-- The largest number of payload bytes in a packet. -/
  sliceSize : Nat
  /-- Where the next slice begins in the payload. -/
  nextOffset : Nat := 0
  /-- The payload from there on. -/
  rest : Bytes
  done : Bool := false
  deriving DecidableEq, Repr

namespace Packetizer

def packetCount (packetizer : Packetizer) : Nat :=
  Heap.packetCount packetizer.sliceSize packetizer.heapLength

/-- The next packet, unless all of the payload has been handed out. -/
def next? (packetizer : Packetizer) : Option (Packet × Packetizer) :=
  if packetizer.done then
    none
  else
    let start := packetizer.nextOffset
    let stop := min (start + packetizer.sliceSize) packetizer.heapLength
    let slice := packetizer.rest.take (stop - start)
    let packet : Packet := {
      heapCount := packetizer.heapCount
      heapLength := packetizer.heapLength
      payloadOffset := start
      payloadLength := slice.length
      addressBits := packetizer.addressBits
      pointers := packetizer.pointers
      payload := slice }
    some (packet, { packetizer with
      nextOffset := stop
      rest := packetizer.rest.drop (stop - start)
      done := packetizer.heapLength ≤ stop })

/-- At most `budget` of the packets that are left; those already handed out are in `given`, the
latest first. -/
def packetsAfter : (budget : Nat) → Packetizer → (given : List Packet) → List Packet
  | 0, _, given => given.reverse
  | budget + 1, packetizer, given =>
      match packetizer.next? with
      | none => given.reverse
      | some (packet, after) => packetsAfter budget after (packet :: given)

/-- All packets that are left. Each of them but the last takes a byte of the payload. -/
def packets (packetizer : Packetizer) : List Packet :=
  packetsAfter (packetizer.rest.length + 1) packetizer []

end Packetizer

namespace Heap

/-- Begin to cut a heap into packets, none of them longer than `maxPacketSize` bytes. -/
def packetizer (heap : Heap) (maxPacketSize : Nat) : Except PacketError Packetizer := do
  let (pointers, payload) ← heap.layout
  Packet.checkPointerCount pointers.length
  Packet.checkFits heap.flavour .heapCount heap.count
  Packet.checkFits heap.flavour .heapLength payload.length
  let overhead := Packet.sizeFor pointers.length 0
  if maxPacketSize < overhead + if payload.isEmpty then 0 else 1 then
    throw (.packetTooSmall maxPacketSize overhead)
  return {
    heapCount := heap.count
    addressBits := heap.flavour.addressBits
    pointers
    heapLength := payload.length
    sliceSize := max 1 (maxPacketSize - overhead)
    rest := payload }

/-- The packets of a heap, none of them longer than `maxPacketSize` bytes. -/
def packets (heap : Heap) (maxPacketSize : Nat) : Except PacketError (List Packet) :=
  (heap.packetizer maxPacketSize).map Packetizer.packets

def packetBytes (heap : Heap) (maxPacketSize : Nat) : Except PacketError (List Bytes) :=
  (heap.packets maxPacketSize).map fun packets => packets.map Packet.toBytes

end Heap
end Spead
