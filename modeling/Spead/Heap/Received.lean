import Spead.Descriptor.Wire

/-!
Heaps on the receiving side, complete and resolved into items.
-/

namespace Spead

structure ReceivedHeap where
  /-- The number of the heap. -/
  count : Nat
  flavour : Flavour
  items : List ReceivedItem
  deriving DecidableEq, Repr

namespace ReceivedHeap

def resolve (count : Nat) (flavour : Flavour) (pointers : List UInt64) (payload : Bytes) :
    Except ReassemblyError ReceivedHeap := do
  let items ← PointerTable.resolve count flavour pointers payload
  return ⟨count, flavour, items⟩

def descriptors (heap : ReceivedHeap) : List (Except Error Descriptor) :=
  let carriers := heap.items.filter fun item => item.id = ItemId.descriptor
  carriers.map fun item => Descriptor.parse heap.flavour.compat item.data

/-- What the heap says about the stream; its first immediate item of that kind counts. -/
def control? (heap : ReceivedHeap) : Option Nat :=
  (heap.items.find? fun item => item.id = ItemId.streamControl && item.immediate).map
    ReceivedItem.value

def isStartOfStream (heap : ReceivedHeap) : Bool :=
  heap.control? = some StreamControl.start

def isEndOfStream (heap : ReceivedHeap) : Bool :=
  heap.control? = some StreamControl.stop

/-- Whether the heap carries nothing but stream control. -/
def isControlOnly (heap : ReceivedHeap) : Bool :=
  heap.items.all fun item => item.id = ItemId.streamControl

end ReceivedHeap
end Spead
