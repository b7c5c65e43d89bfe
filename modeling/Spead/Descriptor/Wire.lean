import Spead.ArrayHeader
import Spead.Descriptor.Basic
import Spead.Heap.PointerTable
import Spead.Packet.Wire

/-!
Descriptors as bytes.

A descriptor travels as a complete heap in one packet, whose items are its id, its name, its
description, its format, its shape and, for whole-byte elements, the text of an array header.
-/

namespace Spead
namespace Descriptor

/-! ## Writing -/

def numberField (field : WireField) (width value : Nat) : Except PacketError Bytes :=
  if value < 256 ^ width then
    .ok (Bytes.bigEndian width value)
  else
    .error (.fieldOverflow field value (width * 8))

/-- A field of a record: the letter of its kind and its width. -/
def formatEntry (flavour : Flavour) (field : Field) : Except PacketError Bytes := do
  let width ← numberField .formatWidth (flavour.formatFieldBytes - 1) field.bits
  return UInt8.ofNat field.kind.code.toNat :: width

/-- A dimension: a mark for variable ones and the length. -/
def shapeEntry (flavour : Flavour) (dimension : Dimension) : Except PacketError Bytes := do
  let mark := if dimension.isNone then flavour.variableTag else 0
  let length ← numberField .shapeDimension (flavour.shapeFieldBytes - 1) (dimension.getD 0)
  return mark :: length

def declaredType (compat : Compat) (type : ElementType) : ElementType :=
  if compat.swapEndian then type.swapped else type

/-- Pointers to consecutive pieces of a payload, the first one at `address`. -/
def pointTo (flavour : Flavour) :
    (address : Nat) → List (Nat × Bytes) → Except PacketError (List UInt64)
  | _, [] => .ok []
  | address, (id, data) :: rest => do
      let pointer ← flavour.encodeAddress id address
      let pointers ← pointTo flavour (address + data.length) rest
      return pointer :: pointers

/-- The parts of a descriptor that go into the payload, with their ids. -/
def payloadParts (flavour : Flavour) (descriptor : Descriptor) :
    Except PacketError (List (Nat × Bytes)) := do
  let format ←
    match descriptor.encoding with
    | .records fields => (fields.mapM (formatEntry flavour)).map List.flatten
    | .elements .. => pure []
  let shape ← (descriptor.shape.mapM (shapeEntry flavour)).map List.flatten
  let header :=
    match descriptor.encoding with
    | .records _ => []
    | .elements type order =>
        let text := ArrayHeader.render
          ⟨declaredType flavour.compat type, order, descriptor.shape⟩
        [(ItemId.descriptorType, Bytes.ofText text)]
  let texts :=
    [(ItemId.descriptorName, Bytes.ofText descriptor.name),
      (ItemId.descriptorDescription, Bytes.ofText descriptor.description)]
  return texts ++
    [(ItemId.descriptorFormat, format), (ItemId.descriptorShape, shape)] ++ header

def serialize (flavour : Flavour) (descriptor : Descriptor) : Except Error Bytes := do
  let parts ← payloadParts flavour descriptor
  let id ← flavour.encodeImmediate ItemId.descriptorId descriptor.id
  let pointers ← pointTo flavour 0 parts
  let payload := parts.flatMap Prod.snd
  Packet.serialize {
    heapCount := 1
    heapLength := payload.length
    payloadOffset := 0
    payloadLength := payload.length
    addressBits := flavour.addressBits
    pointers := id :: pointers
    payload }

/-! ## Reading -/

/-- The number that bytes spell; of more than eight only the last eight count. -/
def readNumber (bytes : Bytes) : Nat :=
  Bytes.toNat bytes % wordLimit

def readText (part : DescriptorText) (bytes : Bytes) : Except CodecError String :=
  match Bytes.toText? bytes with
  | some text => .ok text
  | none => .error (.invalidText part)

def readFormatEntry (entry : Bytes) : Except CodecError Field :=
  Field.make (Char.ofNat (Bytes.toNat (entry.take 1))) (readNumber (entry.drop 1))

def readShapeEntry (flavour : Flavour) (entry : Bytes) : Dimension :=
  if (entry.headD 0 &&& flavour.variableTag) ≠ 0 then
    none
  else
    some (readNumber (entry.drop 1))

/-- What has been read of a descriptor. -/
structure Draft where
  id : Option Nat := none
  name : String := ""
  description : String := ""
  format : List Field := []
  shape : List Dimension := []
  header : Option String := none
  deriving DecidableEq, Repr

/-- Add what an item says. Formats and shapes of several items are joined, of the other parts the
last one counts, and items of other kinds are passed over. -/
def Draft.add (flavour : Flavour) (draft : Draft) (item : ReceivedItem) :
    Except CodecError Draft := do
  if item.id = ItemId.descriptorId then
    return { draft with id := some (readNumber item.data) }
  else if item.id = ItemId.descriptorName then
    return { draft with name := ← readText .name item.data }
  else if item.id = ItemId.descriptorDescription then
    return { draft with description := ← readText .description item.data }
  else if item.id = ItemId.descriptorFormat then
    let entries := Bytes.wholeChunks flavour.formatFieldBytes item.data
    return { draft with format := draft.format ++ (← entries.mapM readFormatEntry) }
  else if item.id = ItemId.descriptorShape then
    let entries := Bytes.wholeChunks flavour.shapeFieldBytes item.data
    return { draft with shape := draft.shape ++ entries.map (readShapeEntry flavour) }
  else if item.id = ItemId.descriptorType then
    return { draft with header := some (← readText .elementType item.data) }
  else
    return draft

/-- The descriptor that a draft stands for. An array header decides type and shape alone. -/
def Draft.finish (compat : Compat) (draft : Draft) : Except Error Descriptor := do
  let some id := draft.id
    | throw (PacketError.missingItem .descriptorId : Error)
  match draft.header with
  | some text => do
      let header ← ArrayHeader.parse text
      make id draft.name draft.description header.shape
        (.elements (declaredType compat header.type) header.order)
  | none =>
      make id draft.name draft.description draft.shape (.records draft.format)

/-- Read a descriptor. The widths are those of its packet; `compat` says how to read the fields. -/
def parse (compat : Compat) (bytes : Bytes) : Except Error Descriptor := do
  let (packet, _) ← Packet.parse bytes
  if packet.payloadOffset ≠ 0 || packet.payloadLength ≠ packet.heapLength then
    throw (CodecError.descriptorSplit packet.payloadLength packet.heapLength : Error)
  let flavour ← Flavour.of packet.addressBits compat
  let items ←
    PointerTable.resolve packet.heapCount flavour packet.pointers packet.payload
  let draft ← (items.foldlM (Draft.add flavour) {} : Except CodecError Draft)
  draft.finish compat

end Descriptor
end Spead
