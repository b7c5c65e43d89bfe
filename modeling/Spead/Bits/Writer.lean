import Spead.Bytes
import Spead.Bits.Error

/-!
Writing fields that are not byte aligned.

Fields follow each other without gaps, the most significant bit of each first; the last byte is
filled up with zero bits. Only the unfinished byte is kept apart from the bytes already written.
-/

namespace Spead
namespace Bits

structure Writer where
  /-- Finished bytes, the latest first. -/
  emitted : Bytes := []
  /-- How many bits of the unfinished byte are known. -/
  pendingCount : Nat := 0
  /-- The known bits of the unfinished byte, read as a number. -/
  pending : Nat := 0
  pendingCount_lt : pendingCount < 8 := by decide
  pending_lt : pending < 2 ^ pendingCount := by decide

namespace Writer

def empty : Writer := {}

instance : Inhabited Writer := ⟨empty⟩

def bitLength (writer : Writer) : Nat :=
  writer.emitted.length * 8 + writer.pendingCount

/-- Append the `count` low bits of `value`. The unfinished byte and the new field form one
number; its whole bytes are emitted and fewer than eight bits stay pending. -/
def append (writer : Writer) (value count : Nat) : Writer :=
  let joined := writer.pending * 2 ^ count + value % 2 ^ count
  let total := writer.pendingCount + count
  let left := total % 8
  { emitted := Bytes.littleEndian (total / 8) (joined / 2 ^ left) ++ writer.emitted
    pendingCount := left
    pending := joined % 2 ^ left
    pendingCount_lt := Nat.mod_lt _ (by decide)
    pending_lt := Nat.mod_lt _ (Nat.two_pow_pos _) }

/-- Append an unsigned field; bits of `value` above the field are ignored. -/
def write (writer : Writer) (value count : Nat) : Except Bits.Error Writer :=
  if count ≤ maxFieldBits then
    .ok (writer.append value count)
  else
    .error (.tooWide count)

def writeSigned (writer : Writer) (value : Int) (count : Nat) :
    Except Bits.Error Writer :=
  writer.write (value % 2 ^ maxFieldBits).toNat count

/-- Append whole bytes. On a byte boundary they are copied. -/
def writeBytes (writer : Writer) (bytes : Bytes) : Writer :=
  if writer.pendingCount = 0 then
    { writer with emitted := bytes.reverse ++ writer.emitted }
  else
    bytes.foldl (fun current byte => current.append byte.toNat 8) writer

/-- The bytes written, the last one filled up with zero bits. -/
def finish (writer : Writer) : Bytes :=
  if writer.pendingCount = 0 then
    writer.emitted.reverse
  else
    (UInt8.ofNat (writer.pending * 2 ^ (8 - writer.pendingCount)) ::
      writer.emitted).reverse

end Writer
end Bits
end Spead
