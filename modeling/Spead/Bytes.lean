/-!
Byte strings and the numbers they spell.

Every multi-byte number of the wire format is written with its most significant byte first
(`bigEndian`, read back by `toNat`); array elements may also be written the other way round
(`littleEndian`).
-/

namespace Spead

-- Powers and sums of numbers are the core library's, whatever other instances a module imports.
attribute [scoped instance (high)] instPowNat Zero.ofOfNat0
attribute [default_instance high] instPowNat

/-- A string of bytes, first byte first. -/
abbrev Bytes := List UInt8

/-- One more than the largest unsigned 64-bit number. -/
def wordLimit : Nat := 2 ^ 64

namespace Bytes

/-- The `width` low bytes of `value`, least significant first. -/
def littleEndian : (width value : Nat) → Bytes
  | 0, _ => []
  | width + 1, value =>
      UInt8.ofNat value :: littleEndian width (value / 256)

/-- The `width` low bytes of `value`, most significant first. -/
def bigEndian (width value : Nat) : Bytes :=
  (littleEndian width value).reverse

/-- The number whose base-256 digits are `bytes`, most significant first. -/
def toNat (bytes : Bytes) : Nat :=
  bytes.foldl (fun value byte => value * 256 + byte.toNat) 0

/-- The first `count` pieces of `size` bytes; the pieces already cut off are in `cut`, the latest
first. -/
def chunksAfter (size : Nat) : (count : Nat) → Bytes → (cut : List Bytes) → List Bytes
  | 0, _, cut => cut.reverse
  | count + 1, bytes, cut =>
      chunksAfter size count (bytes.drop size) (bytes.take size :: cut)

/-- The first `count` pieces of `size` bytes each; the last may be shorter. -/
def chunks (size count : Nat) (bytes : Bytes) : List Bytes :=
  chunksAfter size count bytes []

/-- As many pieces of `size` bytes as there are whole ones. -/
def wholeChunks (size : Nat) (bytes : Bytes) : List Bytes :=
  chunks size (bytes.length / size) bytes

def ofText (text : String) : Bytes :=
  text.toUTF8.data.toList

/-- The text that bytes spell, if they are well-formed. -/
def toText? (bytes : Bytes) : Option String :=
  String.fromUTF8? ⟨bytes.toArray⟩

@[simp] theorem length_littleEndian (width value : Nat) :
    (littleEndian width value).length = width := by
  induction width generalizing value with
  | zero => rfl
  | succ width inductionHypothesis => simp [littleEndian, inductionHypothesis]

@[simp] theorem length_bigEndian (width value : Nat) :
    (bigEndian width value).length = width := by
  simp [bigEndian]

end Bytes
end Spead
