import Spead.Group.Basic
import Spead.Heap.Basic

/-!
Making heaps of a group.

For every item the generator remembers the stamps of the descriptor and of the value that it last
put into a heap. What has another stamp now is stale and goes into the next heap.
-/

namespace Spead

/-- Which descriptors or values go into a heap. -/
inductive Selection where
  /-- Those that have changed since they were last sent. -/
  | stale
  | all
  | none
  deriving DecidableEq, Repr

/-- Whether something with the given stamp is selected, when `sent` is the stamp last sent. -/
def Selection.includes : Selection → (sent stamp : Nat) → Bool
  | .stale, sent, stamp => sent ≠ stamp
  | .all, _, _ => true
  | .none, _, _ => false

/-- Where a generator stands with respect to a group. -/
inductive GeneratorState where
  | notStarted
  /-- Some descriptor has not been sent as it is. -/
  | descriptorsPending
  /-- All descriptors have been sent, but some value has not. -/
  | dataReady
  /-- All that the group holds has been put into heaps. -/
  | fragmented
  /-- The stream has been ended. -/
  | exhausted
  deriving DecidableEq, Repr

/-- The stamps last sent of an item; zero for what has never been sent. -/
structure SentStamps where
  descriptor : Nat := 0
  value : Nat := 0
  deriving DecidableEq, Repr

structure Generator where
  flavour : Flavour
  /-- The number of the next heap. -/
  nextCount : Nat := 1
  sent : Table Nat SentStamps := {}
  started : Bool := false
  exhausted : Bool := false
  deriving DecidableEq, Repr

namespace Generator

def lastSent (generator : Generator) (id : Nat) : SentStamps :=
  (generator.sent.get? id).getD {}

/-- Take a number for a heap. After the largest number that fits an address comes one again. -/
def takeCount (generator : Generator) : Except ItemError (Nat × Generator) :=
  if generator.exhausted then
    .error .generatorExhausted
  else
    let count := generator.nextCount
    let nextCount := if generator.flavour.maxAddress ≤ count then 1 else count + 1
    .ok (count, { generator with nextCount, started := true })

def selectsDescriptor (generator : Generator) (selection : Selection) (item : Item) : Bool :=
  selection.includes (generator.lastSent item.descriptor.id).descriptor item.descriptorStamp

def selectsValue (generator : Generator) (selection : Selection) (item : Item) : Bool :=
  item.value.isSome &&
    selection.includes (generator.lastSent item.descriptor.id).value item.valueStamp

/-- The item of a heap that carries the value of an item of a group. Only a value of fixed size
may travel in its pointer. -/
def valueItem (item : Item) (value : Value) : Except Error HeapItem := do
  let data ← value.encode item.descriptor
  return ⟨item.descriptor.id, .bytes data !item.descriptor.isVariable⟩

def noteDescriptor (sent : Table Nat SentStamps) (item : Item) : Table Nat SentStamps :=
  let id := item.descriptor.id
  sent.put id { (sent.get? id).getD {} with descriptor := item.descriptorStamp }

def noteValue (sent : Table Nat SentStamps) (item : Item) : Table Nat SentStamps :=
  let id := item.descriptor.id
  sent.put id { (sent.get? id).getD {} with value := item.valueStamp }

/-- Make a heap of the selected descriptors and, after them, of the selected values of a group,
each in ascending order of the ids. A failure leaves the generator as it was. -/
def heap (generator : Generator) (group : Group) (descriptors data : Selection) :
    Except Error (Heap × Generator) := do
  if generator.exhausted then
    throw (ItemError.generatorExhausted : Error)
  let described := group.toList.filter (generator.selectsDescriptor descriptors)
  let valued := group.toList.filter (generator.selectsValue data)
  let descriptorItems ← described.mapM fun item =>
    Heap.descriptorItem generator.flavour item.descriptor
  let valueItems ← (valued.filterMap fun item => item.value.map fun value => (item, value)).mapM
    fun (item, value) => valueItem item value
  let (count, next) ← generator.takeCount
  let sent := valued.foldl noteValue (described.foldl noteDescriptor generator.sent)
  return (⟨count, generator.flavour, descriptorItems ++ valueItems⟩, { next with sent })

def startHeap (generator : Generator) : Except ItemError (Heap × Generator) := do
  let (count, next) ← generator.takeCount
  return ((Heap.mk count generator.flavour []).addStart, next)

/-- Make a heap that only marks the end of the stream. No heap can follow. -/
def endHeap (generator : Generator) : Except ItemError (Heap × Generator) := do
  let (count, next) ← generator.takeCount
  return ((Heap.mk count generator.flavour []).addEnd, { next with exhausted := true })

def state (generator : Generator) (group : Group) : GeneratorState :=
  if generator.exhausted then
    .exhausted
  else if !generator.started then
    .notStarted
  else if group.toList.any (generator.selectsDescriptor .stale) then
    .descriptorsPending
  else if group.toList.any (generator.selectsValue .stale) then
    .dataReady
  else
    .fragmented

end Generator
end Spead
