import Spead.Error

/-!
Values of items: arrays of whole-byte elements and arrays of records.
-/

namespace Spead

/-- The elements of an array, with the last index varying fastest. An element is held as the word
of its bits; words of truth values are zero and one. -/
structure ElementArray where
  element : Element
  words : List Nat
  words_lt : ∀ word ∈ words, word < element.wordBound
  deriving DecidableEq, Repr

namespace ElementArray

def ofWords (element : Element) (words : List Nat) : ElementArray where
  element := element
  words := words.map (· % element.wordBound)
  words_lt := by
    intro word member
    obtain ⟨whole, _, rfl⟩ := List.mem_map.1 member
    exact Nat.mod_lt _ element.wordBound_pos

def floatFormat (element : Element) : FloatFormat :=
  if element.size = 4 then .binary32 else .binary64

/-- Equality of elements. Elements with a point are compared as numbers. -/
def agrees (left right : ElementArray) : Bool :=
  left.element = right.element && left.words.length = right.words.length &&
    (left.words.zip right.words).all fun (leftWord, rightWord) =>
      match left.element.kind with
      | .float => (floatFormat left.element).equal leftWord rightWord
      | _ => leftWord = rightWord

end ElementArray

inductive Content where
  | elements (array : ElementArray)
  | records (rows : List (List Scalar))
  deriving DecidableEq, Repr

namespace Content

def count : Content → Nat
  | .elements array => array.words.length
  | .records rows => rows.length

def agrees : Content → Content → Bool
  | .elements left, .elements right => left.agrees right
  | .records left, .records right =>
      left.length = right.length &&
        (left.zip right).all fun (leftRecord, rightRecord) =>
          leftRecord.length = rightRecord.length &&
            (leftRecord.zip rightRecord).all fun (leftScalar, rightScalar) =>
              leftScalar.agrees rightScalar
  | _, _ => false

end Content

/-- An array of any number of dimensions. -/
structure Value where
  shape : List Nat
  content : Content
  deriving DecidableEq, Repr

namespace Value

/-- An array of the given shape, which has to hold as many elements. -/
def make (shape : List Nat) (content : Content) : Except CodecError Value :=
  if Shape.elementCount shape = some content.count then
    .ok ⟨shape, content⟩
  else
    .error (.elementCount shape content.count)

def ofContent (content : Content) : Value :=
  ⟨[content.count], content⟩

def record (scalars : List Scalar) : Value :=
  ⟨[], .records [scalars]⟩

/-- Equality of values. Numbers with a point are compared as numbers, so that a value with a NaN
does not agree with itself. -/
def agrees (left right : Value) : Bool :=
  left.shape = right.shape && left.content.agrees right.content

end Value
end Spead
