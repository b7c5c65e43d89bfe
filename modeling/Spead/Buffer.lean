import Spead.Bytes

/-!
Byte buffers of fixed length whose parts are written in any order.
-/

namespace Spead

structure Buffer where
  storage : ByteArray

namespace Buffer

/-- `length` zero bytes, made by doubling. -/
def zeroStorage (length : Nat) : ByteArray :=
  if length = 0 then
    .empty
  else
    let half := zeroStorage (length / 2)
    if length % 2 = 0 then half ++ half else (half ++ half).push 0
termination_by length
decreasing_by omega

def zeros (length : Nat) : Buffer :=
  ⟨zeroStorage length⟩

def toBytes (buffer : Buffer) : Bytes :=
  buffer.storage.data.toList

def length (buffer : Buffer) : Nat :=
  buffer.storage.size

/-- Write `slice` over the bytes from `offset` on. -/
def write (buffer : Buffer) (offset : Nat) (slice : Bytes) : Buffer :=
  ⟨ByteArray.copySlice ⟨slice.toArray⟩ 0 buffer.storage offset slice.length⟩

end Buffer
end Spead
