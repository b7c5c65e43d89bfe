import Spead.Flavour.Pointer

/-!
Pointer tables resolved against the payload that they point into.

The bytes of an item with an address run up to the next larger address, those of the last one up
to the end of the payload. Of several items at one address only the last can have bytes. Null
pointers delimit items and are none themselves.
-/

namespace Spead

/-- An item of a received heap. -/
structure ReceivedItem where
  id : Nat
  immediate : Bool
  /-- The bytes of the item; for an immediate the whole value field of its pointer. -/
  data : Bytes
  deriving DecidableEq, Repr

def ReceivedItem.value (item : ReceivedItem) : Nat :=
  Bytes.toNat item.data

namespace PointerTable

/-- The addresses of a table, each with the place of its pointer. -/
def addresses (table : List Pointer) : List (Nat × Nat) :=
  table.zipIdx.filterMap fun (pointer, place) =>
    if pointer.immediate then none else some (pointer.value, place)

/-- Where the items with an address end, in table order. Sorted by address, each item ends where
the next one begins; equal addresses keep their order. -/
def ends (table : List Pointer) (payloadLength : Nat) : List Nat :=
  let sorted := (addresses table).mergeSort fun left right => left.1 ≤ right.1
  let paired := sorted.zip ((sorted.drop 1).map Prod.fst ++ [payloadLength])
  let placed := paired.map fun ((_, place), stop) => (place, stop)
  (placed.mergeSort fun left right => left.1 ≤ right.1).map Prod.snd

/-- Give every pointer its item. The addresses of the table take one end each. -/
def items (flavour : Flavour) (payload : Array UInt8) :
    List Pointer → (ends : List Nat) → (found : List ReceivedItem) → List ReceivedItem
  | [], _, found => found.reverse
  | pointer :: rest, ends, found =>
      if pointer.immediate then
        let item := ⟨pointer.id, true, flavour.immediateBytes pointer.value⟩
        items flavour payload rest ends (item :: found)
      else
        let data := (payload.extract pointer.value (ends.headD 0)).toList
        items flavour payload rest (ends.drop 1) (⟨pointer.id, false, data⟩ :: found)

/-- The items of a heap with the given pointers and payload, in table order. -/
def resolve (heapCount : Nat) (flavour : Flavour) (pointers : List UInt64) (payload : Bytes) :
    Except ReassemblyError (List ReceivedItem) :=
  let table := pointers.map flavour.decodePointer
  let outside := table.find? fun pointer =>
    !pointer.immediate && payload.length < pointer.value
  match outside with
  | some pointer =>
      .error (.invalidItemPointer heapCount pointer.id pointer.value payload.length)
  | none =>
      let all := items flavour payload.toArray table (ends table payload.length) []
      .ok (all.filter fun item => item.id ≠ ItemId.null)

end PointerTable
end Spead
