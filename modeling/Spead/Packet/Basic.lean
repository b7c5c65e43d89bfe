import Spead.Coverage
import Spead.Flavour.Pointer

/-!
Packets: a heap's whole pointer table with a slice of its payload.

On the wire a packet is a header of eight bytes (magic, version, the two widths, two zero bytes and
the number of pointers), the four items about the packet itself, the pointers of the heap and the
slice.
-/

namespace Spead

structure Packet where
  /-- The number of the heap. -/
  heapCount : Nat
  /-- Length of the heap's whole payload. -/
  heapLength : Nat
  /-- Where the slice begins in the payload. -/
  payloadOffset : Nat
  /-- The declared length of the slice. -/
  payloadLength : Nat
  addressBits : Nat
  /-- The pointers of the heap, without the items about the packet. -/
  pointers : List UInt64
  payload : Bytes
  deriving DecidableEq, Repr

namespace Packet

def headerSize : Nat := 8

def pointerSize : Nat := 8

/-- The largest number of pointers that a header can count. -/
def maxPointers : Nat := 65535

/-- Bytes of a packet with the given number of heap pointers and of payload bytes. -/
def sizeFor (pointerCount payloadLength : Nat) : Nat :=
  headerSize + pointerSize * (PacketItem.all.length + pointerCount) + payloadLength

def size (packet : Packet) : Nat :=
  sizeFor packet.pointers.length packet.payload.length

/-- The positions of the heap's payload that the packet brings. -/
def span (packet : Packet) : Span :=
  ⟨packet.payloadOffset, packet.payloadOffset + packet.payloadLength⟩

def itemValue (packet : Packet) : PacketItem → Nat
  | .heapCount => packet.heapCount
  | .heapLength => packet.heapLength
  | .payloadOffset => packet.payloadOffset
  | .payloadLength => packet.payload.length

def carriesStop (packet : Packet) : Bool :=
  packet.pointers.any fun word =>
    Pointer.ofWord packet.addressBits word =
      ⟨ItemId.streamControl, true, StreamControl.stop⟩

end Packet
end Spead
