import Spead.Group.Basic
import Spead.Heap.Received

/-!
Applying a received heap to a group: first all its descriptors, then all its values.

An item that cannot be read is reported and passed over; the rest of the heap is applied.
-/

namespace Spead

/-- What a heap changed in a group. -/
structure UpdateReport where
  /-- Ids whose descriptor is new or has changed. -/
  descriptors : List Nat := []
  /-- Ids whose value has been set. -/
  values : List Nat := []
  errors : List Error := []
  deriving DecidableEq, Repr

namespace UpdateReport

def isClean (report : UpdateReport) : Bool :=
  report.errors.isEmpty

def addDescriptor (report : UpdateReport) (id : Nat) : UpdateReport :=
  { report with descriptors := report.descriptors ++ [id] }

def addValue (report : UpdateReport) (id : Nat) : UpdateReport :=
  { report with values := report.values ++ [id] }

def addError (report : UpdateReport) (error : Error) : UpdateReport :=
  { report with errors := report.errors ++ [error] }

end UpdateReport

namespace Group

/-- Apply a descriptor. One that is already known keeps the value of its item. -/
def applyDescriptor (progress : Group × UpdateReport) (parsed : Except Error Descriptor) :
    Group × UpdateReport :=
  let (group, report) := progress
  match parsed with
  | .error error => (group, report.addError error)
  | .ok descriptor =>
      if (group.get? descriptor.id).any fun item => item.descriptor = descriptor then
        progress
      else
        (group.insert descriptor none, report.addDescriptor descriptor.id)

def readValue (descriptor : Descriptor) (received : ReceivedItem) : Except Error Value :=
  if received.immediate then
    Value.decodeImmediate descriptor received.data
  else
    Value.decode descriptor received.data

def applyValue (progress : Group × UpdateReport) (received : ReceivedItem) :
    Group × UpdateReport :=
  let (group, report) := progress
  match group.get? received.id with
  | none => (group, report.addError (ItemError.unknownId received.id))
  | some item =>
      match readValue item.descriptor received with
      | .error error => (group, report.addError error)
      | .ok value => (group.store item value, report.addValue received.id)

def update (group : Group) (heap : ReceivedHeap) : Group × UpdateReport :=
  let described := heap.descriptors.foldl applyDescriptor (group, {})
  let values := heap.items.filter fun item => ItemId.firstUser ≤ item.id
  values.foldl applyValue described

end Group
end Spead
