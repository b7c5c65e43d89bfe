import Spead.Descriptor.Wire

/-!
Heaps on the sending side: a number and a list of items.
-/

namespace Spead

/-- The content of an item to be sent. -/
inductive ItemContent where
  /-- A number that is sent in the pointer. -/
  | inline (value : Nat)
  /-- Bytes that are sent in the pointer if that is allowed and they fit, else in the payload. -/
  | bytes (data : Bytes) (allowImmediate : Bool)
  deriving DecidableEq, Repr

structure HeapItem where
  id : Nat
  content : ItemContent
  deriving DecidableEq, Repr

structure Heap where
  /-- The number of the heap. -/
  count : Nat
  flavour : Flavour
  items : List HeapItem := []
  deriving DecidableEq, Repr

namespace Heap

def add (heap : Heap) (item : HeapItem) : Heap :=
  { heap with items := heap.items ++ [item] }

def addInline (heap : Heap) (id value : Nat) : Heap :=
  heap.add ⟨id, .inline value⟩

def addBytes (heap : Heap) (id : Nat) (data : Bytes) (allowImmediate : Bool) : Heap :=
  heap.add ⟨id, .bytes data allowImmediate⟩

def descriptorItem (flavour : Flavour) (descriptor : Descriptor) : Except Error HeapItem := do
  let data ← descriptor.serialize flavour
  return ⟨ItemId.descriptor, .bytes data false⟩

def addDescriptor (heap : Heap) (descriptor : Descriptor) : Except Error Heap := do
  return heap.add (← descriptorItem heap.flavour descriptor)

def addStart (heap : Heap) : Heap :=
  heap.addInline ItemId.streamControl StreamControl.start

def addEnd (heap : Heap) : Heap :=
  heap.addInline ItemId.streamControl StreamControl.stop

def hasDescriptors (heap : Heap) : Bool :=
  heap.items.any fun item => item.id = ItemId.descriptor

def isEndOfStream (heap : Heap) : Bool :=
  heap.items.contains ⟨ItemId.streamControl, .inline StreamControl.stop⟩

end Heap
end Spead
