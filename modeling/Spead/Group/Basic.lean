import Spead.Table
import Spead.Value.Codec

/-!
Groups of items: what a sender has to say, or what a receiver has been told.

An item has an id and a name, and neither is shared by two items of a group. Every change of a
descriptor or a value is stamped from one counter, so that a generator can tell what has changed
since it last looked.
-/

namespace Spead

/-- A descriptor with its current value. -/
structure Item where
  descriptor : Descriptor
  value : Option Value
  /-- Stamp of the last change of the descriptor. -/
  descriptorStamp : Nat
  /-- Stamp of the last change of the value, zero if it was never set. -/
  valueStamp : Nat
  deriving DecidableEq, Repr

def Item.agrees (left right : Item) : Bool :=
  left.descriptor = right.descriptor &&
    match left.value, right.value with
    | some leftValue, some rightValue => leftValue.agrees rightValue
    | none, none => true
    | _, _ => false

structure Group where
  items : Table Nat Item := {}
  /-- The id of the item with a given name. -/
  names : Table String Nat := {}
  /-- The stamp of the latest change. -/
  stamp : Nat := 0
  deriving DecidableEq, Repr

namespace Group

def empty : Group := {}

instance : Inhabited Group := ⟨empty⟩

def get? (group : Group) (id : Nat) : Option Item :=
  group.items.get? id

def find? (group : Group) (name : String) : Option Item := do
  group.get? (← group.names.get? name)

def toList (group : Group) : List Item :=
  group.items.values

def agrees (left right : Group) : Bool :=
  left.items.keys = right.items.keys &&
    (left.toList.zip right.toList).all fun (leftItem, rightItem) =>
      leftItem.agrees rightItem

def releaseName (group : Group) (id : Nat) (name : String) : Group :=
  match group.names.get? name with
  | some holder => if holder = id then group else { group with items := group.items.erase holder }
  | none => group

def forgetName (group : Group) (id : Nat) : Group :=
  match group.get? id with
  | some item => { group with names := group.names.erase item.descriptor.name }
  | none => group

/-- Put an item into the group. It replaces the item with its id and the item with its name. -/
def insert (group : Group) (descriptor : Descriptor) (value : Option Value) : Group :=
  let id := descriptor.id
  let cleared := (group.releaseName id descriptor.name).forgetName id
  let descriptorStamp := cleared.stamp + 1
  let valueStamp := if value.isSome then descriptorStamp + 1 else 0
  { items := cleared.items.put id { descriptor, value, descriptorStamp, valueStamp }
    names := cleared.names.put descriptor.name id
    stamp := max descriptorStamp valueStamp }

/-- Add an item. Its value, if there is one, has to have an encoding. -/
def add (group : Group) (descriptor : Descriptor) (value : Option Value) :
    Except Error Group := do
  if let some content := value then
    let _ ← content.encode descriptor
  return group.insert descriptor value

def store (group : Group) (item : Item) (value : Value) : Group :=
  let stamp := group.stamp + 1
  { group with
    items := group.items.put item.descriptor.id
      { item with value := some value, valueStamp := stamp }
    stamp := stamp }

/-- Set the value of the item with the given id. It has to have an encoding. -/
def setValue (group : Group) (id : Nat) (value : Value) : Except Error Group := do
  let some item := group.get? id
    | throw (ItemError.unknownId id : Error)
  let _ ← value.encode item.descriptor
  return group.store item value

def setValueByName (group : Group) (name : String) (value : Value) : Except Error Group := do
  let some id := group.names.get? name
    | throw (ItemError.unknownName name : Error)
  group.setValue id value

def remove (group : Group) (id : Nat) : Group :=
  let cleared := group.forgetName id
  { cleared with items := cleared.items.erase id }

end Group
end Spead
