import Spead.Bits.Reader
import Spead.Bits.Writer
import Spead.Descriptor.Basic
import Spead.Value.Basic
import Spead.Value.ElementOrder

/-!
Values as bytes.

Whole-byte elements follow each other in the byte order of their type, with the last or the first
index varying fastest. Fields of records follow each other without gaps, and only the last byte of
a value is filled up. A variable dimension is taken from the value when it is written and from the
number of bytes when it is read.
-/

namespace Spead
namespace Value

/-! ## Sizes -/

def checkShape (descriptor : Descriptor) (value : Value) : Except CodecError Unit :=
  if Shape.admits descriptor.shape value.shape then
    .ok ()
  else
    .error (.shapeMismatch descriptor.id descriptor.shape value.shape)

def encodedLength (descriptor : Descriptor) (value : Value) : Except CodecError Nat := do
  checkShape descriptor value
  let count ← descriptor.countFor value.shape
  return Descriptor.bytesFor (← descriptor.bitsFor count)

def immediateFits (flavour : Flavour) (descriptor : Descriptor) (value : Value) : Bool :=
  !descriptor.isVariable &&
    match encodedLength descriptor value with
    | .ok length => flavour.fitsImmediate length
    | .error _ => false

/-! ## Writing -/

def encodeWord (type : ElementType) (word : Nat) : Bytes :=
  match type.order with
  | .little => Bytes.littleEndian type.size word
  | .big => Bytes.bigEndian type.size word

/-- The order in which the elements of an array are sent. -/
def sendingOrder (order : ElementOrder) (shape : List Nat) (words : List Nat) : List Nat :=
  match order with
  | .rowMajor => words
  | .columnMajor =>
      if 1 < shape.length then Shape.gather (Shape.columnMajor shape) words else words

/-- The order in memory of elements in the order in which they were sent. -/
def memoryOrder (order : ElementOrder) (shape : List Nat) (words : List Nat) : List Nat :=
  match order with
  | .rowMajor => words
  | .columnMajor =>
      if 1 < shape.length then
        Shape.gather (Shape.columnMajor shape.reverse) words
      else
        words

/-- The bits of a scalar as a number, if it belongs into the field. -/
def fieldWord (descriptor : Descriptor) (field : Field) (scalar : Scalar) :
    Except CodecError Nat :=
  let inRange (fits : Bool) (word : Nat) : Except CodecError Nat :=
    if fits then .ok word else .error (.outOfRange descriptor.id scalar field.bits)
  match field.kind, scalar with
  | .uint, .uint value => inRange (value < 2 ^ field.bits) value
  | .int, .int value =>
      inRange (-2 ^ (field.bits - 1) ≤ value && value < 2 ^ (field.bits - 1))
        (value % 2 ^ field.bits).toNat
  | .float, .float value =>
      let word := value.bits.toNat
      .ok (if field.bits = 32 then FloatFormat.convert .binary64 .binary32 word else word)
  | .bool, .bool value => .ok value.toNat
  | .char, .char value =>
      inRange (value.toNat < 128 && value.toNat < 2 ^ field.bits) value.toNat
  | kind, _ => .error (.typeMismatch descriptor.id (.field scalar kind))

def encodeRecord
    (descriptor : Descriptor) (fields : List Field)
    (writer : Bits.Writer) (record : List Scalar) : Except Error Bits.Writer := do
  if record.length ≠ fields.length then
    throw (CodecError.typeMismatch descriptor.id
      (.fieldCount record.length fields.length) : Error)
  (fields.zip record).foldlM (fun current (field, scalar) => do
    let word ← fieldWord descriptor field scalar
    current.write word field.bits) writer

def encode (descriptor : Descriptor) (value : Value) : Except Error Bytes := do
  checkShape descriptor value
  match descriptor.encoding, value.content with
  | .elements type order, .elements array =>
      if array.element ≠ type.toElement then
        throw (CodecError.typeMismatch descriptor.id (.element array.element type) : Error)
      return (sendingOrder order value.shape array.words).flatMap (encodeWord type)
  | .records fields, .records rows => do
      let writer ← rows.foldlM (encodeRecord descriptor fields) .empty
      return writer.finish
  | .elements .., .records _ =>
      throw (CodecError.typeMismatch descriptor.id .recordsForElements : Error)
  | .records _, .elements _ =>
      throw (CodecError.typeMismatch descriptor.id .elementsForRecords : Error)

/-! ## Reading -/

/-- The word of one element. Every byte but zero is true. -/
def decodeWord (type : ElementType) (bytes : Bytes) : Nat :=
  let word :=
    match type.order with
    | .little => Bytes.toNat bytes.reverse
    | .big => Bytes.toNat bytes
  match type.kind with
  | .bool => min word 1
  | _ => word

/-- The length of the variable dimension in a value of `length` bytes. Elements that are not whole
bytes are as many as fit. -/
def variableLength (descriptor : Descriptor) (length : Nat) : Except CodecError Nat := do
  let unit ← descriptor.unitBits
  if unit = 0 then
    return 0
  else if unit % 8 = 0 then
    if length % (unit / 8) = 0 then
      return length / (unit / 8)
    else
      throw (.raggedValue descriptor.id length)
  else
    return length * 8 / unit

def shapeOf (descriptor : Descriptor) (length : Nat) : Except CodecError (List Nat) := do
  if descriptor.isVariable then
    return Shape.fill (← variableLength descriptor length) descriptor.shape
  else
    return Shape.fixedDimensions descriptor.shape

def decodeField (field : Field) : StateT Bits.Reader (Except Bits.Error) Scalar := fun reader =>
  match field.kind with
  | .int => do
      let (value, next) ← reader.readSigned field.bits
      return (.int value, next)
  | kind => do
      let (word, next) ← reader.read field.bits
      let scalar :=
        match kind with
        | .float =>
            let wide :=
              if field.bits = 32 then FloatFormat.convert .binary32 .binary64 word else word
            Scalar.float (Binary64.ofWord wide)
        | .bool => .bool (word ≠ 0)
        | .char => .char (Char.ofNat word)
        | _ => .uint word
      return (scalar, next)

def decodeRecords (fields : List Field) (count : Nat) (bytes : Bytes) :
    Except Bits.Error (List (List Scalar)) :=
  ((List.range count).mapM fun _ => fields.mapM decodeField).run' { rest := bytes }

/-- Read a value. What follows the size that the descriptor asks for is passed over. -/
def decode (descriptor : Descriptor) (bytes : Bytes) : Except Error Value := do
  let shape ← shapeOf descriptor bytes.length
  let count ← descriptor.countFor shape
  let bits ← descriptor.bitsFor count
  let required := Descriptor.bytesFor bits
  if bytes.length < required then
    throw (CodecError.valueTooShort descriptor.id required bytes.length : Error)
  match descriptor.encoding with
  | .elements type order =>
      let words := (Bytes.chunks type.size count bytes).map (decodeWord type)
      return ⟨shape, .elements (.ofWords type.toElement (memoryOrder order shape words))⟩
  | .records fields => do
      let records ← decodeRecords fields count (bytes.take required)
      return ⟨shape, .records records⟩

/-- Read a value from the value field of a pointer. It stands at the end of the field. -/
def decodeImmediate (descriptor : Descriptor) (field : Bytes) : Except Error Value :=
  match descriptor.fixedSize? with
  | some size =>
      if size ≤ field.length then
        decode descriptor (field.drop (field.length - size))
      else
        throw (CodecError.valueTooShort descriptor.id size field.length : Error)
  | none => decode descriptor field

end Value
end Spead
