import Spead.Error

/-!
Descriptors: what an item is called, which shape its values have and how their elements are laid
out.
-/

namespace Spead

def ElementType.ofText (text : String) : Except CodecError ElementType :=
  match ElementType.parse? text with
  | some type => .ok type
  | none => .error (.unknownElementType text)

def ElementType.make (kind : ElementKind) (size : Nat) (order : ByteOrder) :
    Except CodecError ElementType :=
  match ElementType.of? kind size order with
  | some type => .ok type
  | none => .error (.elementSize kind size)

def Field.make (code : Char) (bits : Nat) : Except CodecError Field :=
  match Field.of? code bits with
  | some field => .ok field
  | none => .error (.formatField code bits)

/-- How the elements of an item are laid out. -/
inductive Encoding where
  /-- Whole-byte elements of one type. -/
  | elements (type : ElementType) (order : ElementOrder)
  /-- Bit-packed records of fields. -/
  | records (fields : List Field)
  deriving DecidableEq, Repr

def Encoding.bits : Encoding → Nat
  | .elements type _ => type.size * 8
  | .records fields => (fields.map Field.bits).sum

structure Descriptor where
  id : Nat
  name : String
  description : String
  shape : List Dimension
  encoding : Encoding
  deriving DecidableEq, Repr

namespace Descriptor

def isVariable (descriptor : Descriptor) : Bool :=
  descriptor.shape.any Option.isNone

/-- Bits that `count` elements take, which has to be a number of 64 bits. -/
def bitsFor (descriptor : Descriptor) (count : Nat) : Except CodecError Nat :=
  let bits := count * descriptor.encoding.bits
  if bits < wordLimit then .ok bits else .error (.sizeOverflow descriptor.id)

def countFor (descriptor : Descriptor) (dimensions : List Nat) : Except CodecError Nat :=
  match Shape.elementCount dimensions with
  | some count => .ok count
  | none => .error (.sizeOverflow descriptor.id)

/-- Bits of one value, with a variable dimension counted as one. -/
def unitBits (descriptor : Descriptor) : Except CodecError Nat := do
  descriptor.bitsFor (← descriptor.countFor (Shape.fixedDimensions descriptor.shape))

def bytesFor (bits : Nat) : Nat :=
  (bits + 7) / 8

/-- Bytes of a value, if all of them have the same size. -/
def fixedSize? (descriptor : Descriptor) : Option Nat :=
  if descriptor.isVariable then
    none
  else
    descriptor.unitBits.toOption.map bytesFor

/-- Whether a descriptor can be that of an application's item. -/
def check (descriptor : Descriptor) : Except Error Unit := do
  if descriptor.id < ItemId.firstUser then
    throw (ItemError.invalidId descriptor.id : Error)
  let variableCount := Shape.variableCount descriptor.shape
  if 1 < variableCount then
    throw (CodecError.variableDimensions variableCount : Error)
  if descriptor.encoding = .records [] then
    throw (CodecError.emptyFormat : Error)
  let _ ← descriptor.unitBits

def make (id : Nat) (name description : String) (shape : List Dimension) (encoding : Encoding) :
    Except Error Descriptor := do
  let descriptor : Descriptor := { id, name, description, shape, encoding }
  descriptor.check
  return descriptor

end Descriptor
end Spead
