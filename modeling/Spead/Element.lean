import Spead.Decimal.Reading

/-!
Elements of arrays: what kind of number one is, how many bytes it takes and in which order they
are sent.
-/

namespace Spead

/-- The order of the bytes of an element. -/
inductive ByteOrder where
  | little
  | big
  deriving DecidableEq, Repr

def ByteOrder.swapped : ByteOrder → ByteOrder
  | .little => .big
  | .big => .little

/-- The order of the elements of an array with several dimensions. -/
inductive ElementOrder where
  /-- The last index varies fastest. -/
  | rowMajor
  /-- The first index varies fastest. -/
  | columnMajor
  deriving DecidableEq, Repr

/-- What kind of number an element is. -/
inductive ElementKind where
  | bool
  | int
  | uint
  | float
  deriving DecidableEq, Repr

namespace ElementKind

def name : ElementKind → String
  | bool => "Bool"
  | int => "Int"
  | uint => "UInt"
  | float => "Float"

def code : ElementKind → Char
  | bool => 'b'
  | int => 'i'
  | uint => 'u'
  | float => 'f'

def ofCode? (code : Char) : Option ElementKind :=
  if code = 'b' || code = '?' then
    some bool
  else if code = 'i' then
    some int
  else if code = 'u' then
    some uint
  else if code = 'f' then
    some float
  else
    none

def supports : ElementKind → (size : Nat) → Bool
  | bool, size => size = 1
  | int, size => [1, 2, 4, 8].contains size
  | uint, size => [1, 2, 4, 8].contains size
  | float, size => [4, 8].contains size

end ElementKind

/-- The kind and the size of an element. -/
structure Element where
  kind : ElementKind
  size : Nat
  supported : kind.supports size = true := by decide
  deriving DecidableEq, Repr

/-- One more than the largest word that stands for an element. -/
def Element.wordBound (element : Element) : Nat :=
  match element.kind with
  | .bool => 2
  | _ => 256 ^ element.size

theorem Element.wordBound_pos (element : Element) : 0 < element.wordBound := by
  unfold wordBound
  split
  · decide
  · exact Nat.pow_pos (by decide)

/-- An element with the order of its bytes. -/
structure ElementType extends Element where
  order : ByteOrder
  deriving DecidableEq, Repr

namespace ElementType

/-- The type with the given kind, size and order, if elements of the kind can have the size. -/
def of? (kind : ElementKind) (size : Nat) (order : ByteOrder) : Option ElementType :=
  if supported : kind.supports size = true then
    some { kind, size, supported, order }
  else
    none

/-! ## Common types, in little-endian order -/

def bool : ElementType := { kind := .bool, size := 1, order := .little }
def int8 : ElementType := { kind := .int, size := 1, order := .little }
def uint8 : ElementType := { kind := .uint, size := 1, order := .little }
def int16 : ElementType := { kind := .int, size := 2, order := .little }
def uint16 : ElementType := { kind := .uint, size := 2, order := .little }
def int32 : ElementType := { kind := .int, size := 4, order := .little }
def uint32 : ElementType := { kind := .uint, size := 4, order := .little }
def int64 : ElementType := { kind := .int, size := 8, order := .little }
def uint64 : ElementType := { kind := .uint, size := 8, order := .little }
def float32 : ElementType := { kind := .float, size := 4, order := .little }
def float64 : ElementType := { kind := .float, size := 8, order := .little }

instance : Inhabited ElementType := ⟨uint8⟩

def withOrder (type : ElementType) (order : ByteOrder) : ElementType :=
  { type with order := order }

/-- The type with its bytes in the other order. A single byte has no order to swap. -/
def swapped (type : ElementType) : ElementType :=
  if type.size = 1 then type else type.withOrder type.order.swapped

/-- Equality that leaves the order of the bytes aside. -/
def sameElement (left right : ElementType) : Bool :=
  left.toElement = right.toElement

/-! ## Type texts -/

/-- The text of a type: a mark for the order, the letter of the kind and the size, as in `<u2`. A
single byte is marked as having no order. -/
def text (type : ElementType) : String :=
  let mark :=
    if type.size = 1 then '|'
    else match type.order with
      | .little => '<'
      | .big => '>'
  String.ofList [mark, type.kind.code] ++ toString type.size

/-- The order that a type text begins with, and the rest. No mark means little-endian. -/
def splitOrder : List Char → ByteOrder × List Char
  | mark :: rest =>
      if mark = '<' || mark = '=' || mark = '|' then
        (.little, rest)
      else if mark = '>' || mark = '!' then
        (.big, rest)
      else
        (.little, mark :: rest)
  | [] => (.little, [])

def parse? (text : String) : Option ElementType :=
  match splitOrder text.toList with
  | (order, code :: digits) => do
      let kind ← ElementKind.ofCode? code
      let size ← Decimal.readWord? digits
      of? kind size order
  | (_, []) => none

end ElementType
end Spead
