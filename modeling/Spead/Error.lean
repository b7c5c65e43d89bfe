import Spead.Bits.Error
import Spead.Element
import Spead.Field
import Spead.Flavour.Basic
import Spead.Shape
import Spead.Text.Quoted
import Spead.Value.Scalar

/-!
What can go wrong, by domain, and how each cause is worded.

Only a failure of the transport ends a stream; every other error concerns one packet, one heap or
one item.
-/

namespace Spead

open Text

/-! ## Values and descriptors -/

/-- What is wrong with the text of an array header. -/
inductive HeaderProblem where
  | expected (char : Char)
  | expectedText
  | unterminatedText
  | expectedTruth
  | unexpectedKey (key : String)
  | badDimension (word : String)
  | missingKey
  deriving DecidableEq, Repr

def HeaderProblem.message : HeaderProblem → String
  | .expected char => s!"expected {quoteChar char}"
  | .expectedText => "expected string"
  | .unterminatedText => "unterminated string"
  | .expectedTruth => "expected True or False"
  | .unexpectedKey key => s!"unexpected key {quote key}"
  | .badDimension word => s!"bad dimension {quote word}"
  | .missingKey => "descr, fortran_order and shape are all required"

/-- Why a value does not belong to a descriptor. -/
inductive ValueMismatch where
  | element (given : Element) (expected : ElementType)
  | fieldCount (given expected : Nat)
  | field (scalar : Scalar) (expected : FieldKind)
  | recordsForElements
  | elementsForRecords
  deriving DecidableEq, Repr

def ValueMismatch.message : ValueMismatch → String
  | .element given expected =>
      s!"{given.kind.name} elements of {given.size} bytes for dtype {expected.text}"
  | .fieldCount given expected => s!"record has {given} fields, format has {expected}"
  | .field scalar expected =>
      s!"{scalar.describe} for a " ++ expected.code.toString ++ " field"
  | .recordsForElements => "records given for a dtype item"
  | .elementsForRecords => "array given for a format item"

/-- The parts of a descriptor that are text. -/
inductive DescriptorText where
  | name
  | description
  | elementType
  deriving DecidableEq, Repr

def DescriptorText.label : DescriptorText → String
  | .name => "name"
  | .description => "description"
  | .elementType => "dtype"

/-- What can go wrong between values or descriptors and bytes. -/
inductive CodecError where
  | unknownElementType (text : String)
  | elementSize (kind : ElementKind) (size : Nat)
  | header (problem : HeaderProblem) (position : Nat) (text : String)
  | formatField (code : Char) (bits : Nat)
  | descriptorSplit (length heapLength : Nat)
  | emptyFormat
  | variableDimensions (count : Nat)
  | typeMismatch (id : Nat) (reason : ValueMismatch)
  | shapeMismatch (id : Nat) (expected : List Dimension) (actual : List Nat)
  | elementCount (shape : List Nat) (count : Nat)
  | outOfRange (id : Nat) (value : Scalar) (bits : Nat)
  | valueTooShort (id required actual : Nat)
  | raggedValue (id actual : Nat)
  | sizeOverflow (id : Nat)
  | invalidText (part : DescriptorText)
  deriving DecidableEq, Repr

def CodecError.message : CodecError → String
  | .unknownElementType text => s!"unsupported dtype {quote text}"
  | .elementSize kind size =>
      "unsupported dtype " ++ quote s!"{kind.name} of {size} bytes"
  | .header problem position text =>
      s!"invalid numpy header: {problem.message} at byte {position} of {quote text}"
  | .formatField code bits => s!"invalid format field ({quoteChar code}, {bits})"
  | .descriptorSplit length heapLength =>
      s!"invalid descriptor: descriptor spans more than one packet " ++
        s!"({length} of {heapLength} bytes)"
  | .emptyFormat => "invalid descriptor: empty format"
  | .variableDimensions count => s!"at most one dimension may be variable, got {count}"
  | .typeMismatch id reason =>
      s!"value does not match descriptor of item {hex id}: {reason.message}"
  | .shapeMismatch id expected actual =>
      s!"shape mismatch for item {hex id}: expected {quote (Shape.describe expected)}, " ++
        s!"got {bracketedNats actual}"
  | .elementCount shape count => s!"shape {bracketedNats shape} does not hold {count} elements"
  | .outOfRange id value bits =>
      s!"value {value.content} does not fit in {bits} bits for item {hex id}"
  | .valueTooShort id required actual => s!"item {hex id} needs {required} bytes, got {actual}"
  | .raggedValue id actual =>
      s!"item {hex id}: {actual} bytes is not a whole number of elements"
  | .sizeOverflow id => s!"item {hex id}: shape is too large to address"
  | .invalidText part => s!"descriptor field {part.label} is not valid UTF-8"

/-! ## Packets -/

/-- The items that every packet carries about itself. -/
inductive PacketItem where
  | heapCount
  | heapLength
  | payloadOffset
  | payloadLength
  deriving DecidableEq, Repr

namespace PacketItem

/-- All of them in the order in which packets carry them. -/
def all : List PacketItem :=
  [heapCount, heapLength, payloadOffset, payloadLength]

def id : PacketItem → Nat
  | heapCount => ItemId.heapCount
  | heapLength => ItemId.heapLength
  | payloadOffset => ItemId.payloadOffset
  | payloadLength => ItemId.payloadLength

def label : PacketItem → String
  | heapCount => "heap cnt"
  | heapLength => "heap length"
  | payloadOffset => "payload offset"
  | payloadLength => "payload length"

end PacketItem

/-- A place of limited width on the wire. -/
inductive WireField where
  | itemId
  | immediateValue
  | heapAddress
  | packetItem (item : PacketItem)
  | formatWidth
  | shapeDimension
  deriving DecidableEq, Repr

def WireField.label : WireField → String
  | .itemId => "item id"
  | .immediateValue => "immediate value"
  | .heapAddress => "heap address"
  | .packetItem item => item.label
  | .formatWidth => "format width"
  | .shapeDimension => "shape dimension"

/-- What is missing from a pointer table. -/
inductive MissingItem where
  | packetItem (item : PacketItem)
  | descriptorId
  deriving DecidableEq, Repr

def MissingItem.label : MissingItem → String
  | .packetItem item => item.label
  | .descriptorId => "descriptor id"

/-- What can go wrong with packets. -/
inductive PacketError where
  | tooShort (required actual : Nat)
  | invalidMagic (actual : UInt8)
  | invalidVersion (version : UInt8)
  | invalidFlavour (idBytes addressBytes : Nat)
  | missingItem (item : MissingItem)
  | notImmediate (id : Nat)
  | payloadOutOfRange (offset length heapLength : Nat)
  | payloadLengthMismatch (expected actual : Nat)
  | packetTooSmall (maxPacketSize overhead : Nat)
  | tooManyItems (count : Nat)
  | fieldOverflow (field : WireField) (value bits : Nat)
  deriving DecidableEq, Repr

/-- The first byte of every packet. -/
def packetMagic : UInt8 := 0x53

def packetVersion : UInt8 := 4

def PacketError.message : PacketError → String
  | .tooShort required actual =>
      s!"packet too short: need at least {required} bytes, got {actual}"
  | .invalidMagic actual =>
      s!"invalid packet magic: expected {hex packetMagic.toNat 2}, got {hex actual.toNat 2}"
  | .invalidVersion version => s!"unsupported protocol version {version}"
  | .invalidFlavour idBytes addressBytes =>
      s!"invalid flavour: item pointer width {idBytes}, heap address width {addressBytes}"
  | .missingItem item => s!"packet is missing the {item.label} item"
  | .notImmediate id => s!"packet item {hex id} must be immediate"
  | .payloadOutOfRange offset length heapLength =>
      s!"payload [{offset}, {offset}+{length}) lies outside heap of {heapLength} bytes"
  | .payloadLengthMismatch expected actual =>
      s!"payload length mismatch: header says {expected}, got {actual}"
  | .packetTooSmall maxPacketSize overhead =>
      s!"max packet size {maxPacketSize} too small for {overhead} bytes of header and pointers"
  | .tooManyItems count => s!"too many items in one heap: {count}"
  | .fieldOverflow field value bits => s!"{field.label} {hex value} does not fit in {bits} bits"

/-! ## Heaps -/

/-- Why a heap cannot be used. -/
inductive HeapFault where
  | flavour (cause : FlavourError)
  /-- A packet's slice of the payload, from `start` up to `stop`, is not one of the heap's. -/
  | slice (start stop : Nat)
  deriving DecidableEq, Repr

/-- Why a heap was given up. -/
inductive ReassemblyError where
  | heapLengthMismatch (heapCount expected actual : Nat)
  | flavourMismatch (heapCount expected actual : Nat)
  | pointerMismatch (heapCount : Nat)
  | truncatedHeap (heapCount received heapLength : Nat)
  | evictedHeap (heapCount received heapLength maxHeaps : Nat)
  | heapTooLarge (heapCount heapLength maxHeapSize : Nat)
  | invalidItemPointer (heapCount id offset heapLength : Nat)
  | invalidHeap (heapCount : Nat) (reason : HeapFault)
  deriving DecidableEq, Repr

def ReassemblyError.heapCount : ReassemblyError → Nat
  | .heapLengthMismatch heapCount _ _ => heapCount
  | .flavourMismatch heapCount _ _ => heapCount
  | .pointerMismatch heapCount => heapCount
  | .truncatedHeap heapCount _ _ => heapCount
  | .evictedHeap heapCount _ _ _ => heapCount
  | .heapTooLarge heapCount _ _ => heapCount
  | .invalidItemPointer heapCount _ _ _ => heapCount
  | .invalidHeap heapCount _ => heapCount

inductive SettingsError where
  | flavour (cause : FlavourError)
  | packetSize (size minimum : Nat)
  | mustBePositive (setting : String)
  | unknownFlag (name : String)
  | rateOutOfRange (setting : String) (rate : Binary64)
  deriving DecidableEq, Repr

def SettingsError.message : SettingsError → String
  | .flavour cause => cause.message
  | .packetSize size minimum =>
      s!"max_packet_size {size} is below the {minimum}-byte minimum"
  | .mustBePositive setting => s!"{setting} must be at least 1"
  | .unknownFlag name => s!"unknown bug-compat flag {quote name}"
  | .rateOutOfRange setting rate =>
      s!"{setting} must be in [0, 1], got " ++ Decimal.renderBinary64 .plain rate

def SettingsError.announce (error : SettingsError) : String :=
  s!"configuration error: {error.message}"

def HeapFault.message : HeapFault → String
  | .flavour cause => (SettingsError.flavour cause).announce
  | .slice start stop => s!"payload slice {start}..{stop} does not fit the heap"

def ReassemblyError.message : ReassemblyError → String
  | .heapLengthMismatch heapCount expected actual =>
      s!"heap {heapCount}: heap length mismatch, expected {expected}, got {actual}"
  | .flavourMismatch heapCount expected actual =>
      s!"heap {heapCount}: heap address bits changed from {expected} to {actual}"
  | .pointerMismatch heapCount =>
      s!"heap {heapCount}: item pointer tables disagree between packets"
  | .truncatedHeap heapCount received heapLength =>
      s!"heap {heapCount} truncated: {received} of {heapLength} bytes received"
  | .evictedHeap heapCount received heapLength maxHeaps =>
      s!"heap {heapCount} evicted (max {maxHeaps} live heaps): " ++
        s!"{received} of {heapLength} bytes received"
  | .heapTooLarge heapCount heapLength maxHeapSize =>
      s!"heap {heapCount}: declared length {heapLength} exceeds the {maxHeapSize}-byte limit"
  | .invalidItemPointer heapCount id offset heapLength =>
      s!"heap {heapCount}: item {hex id} at offset {offset} lies outside " ++
        s!"{heapLength}-byte payload"
  | .invalidHeap heapCount reason =>
      s!"heap {heapCount} is unusable: {reason.message}"

/-- What can go wrong with items. -/
inductive ItemError where
  | unknownId (id : Nat)
  | unknownName (name : String)
  | invalidId (id : Nat)
  | generatorExhausted
  deriving DecidableEq, Repr

def ItemError.message : ItemError → String
  | .unknownId id => s!"unknown item id {hex id}"
  | .unknownName name => s!"unknown item name {quote name}"
  | .invalidId id => s!"item id {hex id} is reserved or out of range"
  | .generatorExhausted => "heap generator already produced its end-of-stream heap"

/-- What can go wrong with a transport. -/
inductive TransportError where
  /-- The other end went away. -/
  | closed
  /-- The medium itself failed. -/
  | failed (reason : String)
  deriving DecidableEq, Repr

def TransportError.message : TransportError → String
  | .closed => "transport closed"
  | .failed reason => s!"I/O error: {reason}"

/-! ## All domains -/

inductive Error where
  | bits (cause : Bits.Error)
  | codec (cause : CodecError)
  | packet (cause : PacketError)
  | reassembly (cause : ReassemblyError)
  | item (cause : ItemError)
  | transport (cause : TransportError)
  | settings (cause : SettingsError)
  deriving DecidableEq, Repr

namespace Error

def message : Error → String
  | bits cause => s!"bit I/O error: {cause.message}"
  | codec cause => s!"codec error: {cause.message}"
  | packet cause => s!"packet error: {cause.message}"
  | reassembly cause => s!"reassembly error: {cause.message}"
  | item cause => s!"item error: {cause.message}"
  | transport cause => s!"transport error: {cause.message}"
  | settings cause => cause.announce

def isFatal : Error → Bool
  | transport _ => true
  | _ => false

instance : Coe Bits.Error Error := ⟨bits⟩
instance : Coe CodecError Error := ⟨codec⟩
instance : Coe PacketError Error := ⟨packet⟩
instance : Coe ReassemblyError Error := ⟨reassembly⟩
instance : Coe ItemError Error := ⟨item⟩
instance : Coe TransportError Error := ⟨transport⟩
instance : Coe SettingsError Error := ⟨settings⟩
instance : Coe FlavourError Error := ⟨fun cause => settings (.flavour cause)⟩

/-- A computation of one domain is a computation with errors of any domain. -/
instance {domain : Type} [Coe domain Error] : MonadLift (Except domain) (Except Error) where
  monadLift
    | .ok value => .ok value
    | .error cause => .error (cause : Error)

end Error
end Spead
