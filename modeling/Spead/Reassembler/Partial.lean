import Spead.Buffer
import Spead.Heap.Received

/-!
Heaps of which only a part has been received.
-/

namespace Spead

structure PartialHeap where
  /-- The number of the heap. -/
  count : Nat
  addressBits : Nat
  heapLength : Nat
  /-- The pointer table of the first packet, which all others have to repeat. -/
  pointers : List UInt64
  /-- The payload, with zeros where nothing has been received. -/
  payload : Buffer
  received : Coverage := {}
  /-- Whether a packet told that the stream ends with this heap. -/
  endOfStream : Bool := false
  /-- Heaps are numbered in the order in which they were begun. -/
  sequence : Nat

namespace PartialHeap

/-- The heap that a packet begins, before the packet itself is added. -/
def begin (packet : Packet) (sequence : Nat) : PartialHeap where
  count := packet.heapCount
  addressBits := packet.addressBits
  heapLength := packet.heapLength
  pointers := packet.pointers
  payload := .zeros packet.heapLength
  sequence := sequence

def objection? (heap : PartialHeap) (packet : Packet) : Option ReassemblyError :=
  if packet.heapLength ≠ heap.heapLength then
    some (.heapLengthMismatch heap.count heap.heapLength packet.heapLength)
  else if packet.addressBits ≠ heap.addressBits then
    some (.flavourMismatch heap.count heap.addressBits packet.addressBits)
  else if packet.pointers ≠ heap.pointers then
    some (.pointerMismatch heap.count)
  else if heap.heapLength < packet.span.stop || packet.payload.length ≠ packet.payloadLength then
    some (.invalidHeap heap.count (.slice packet.span.start packet.span.stop))
  else
    none

/-- Add the slice of a packet that belongs to the heap. Later bytes replace earlier ones. -/
def add (heap : PartialHeap) (packet : Packet) : PartialHeap :=
  { heap with
    payload := heap.payload.write packet.payloadOffset packet.payload
    received := heap.received.insert packet.span
    endOfStream := heap.endOfStream || packet.carriesStop }

def isComplete (heap : PartialHeap) : Bool :=
  heap.received.isComplete heap.heapLength

def resolve (heap : PartialHeap) (compat : Compat) : Except ReassemblyError ReceivedHeap :=
  match Flavour.of heap.addressBits compat with
  | .ok flavour =>
      ReceivedHeap.resolve heap.count flavour heap.pointers heap.payload.toBytes
  | .error cause => .error (.invalidHeap heap.count (.flavour cause))

end PartialHeap
end Spead
