import Spead.Bytes
import Spead.Bits.Error

/-!
Reading fields that are not byte aligned, the most significant bit of each first.
-/

namespace Spead
namespace Bits

/-- A position in a bit string. -/
structure Reader where
  /-- The bytes from the one that holds the next bit on. -/
  rest : Bytes
  /-- How many bits of the first of these bytes have been read. -/
  offset : Nat := 0
  /-- How many bits have been read in all. -/
  position : Nat := 0
  deriving DecidableEq, Repr

namespace Reader

def remaining (reader : Reader) : Nat :=
  reader.rest.length * 8 - reader.offset

/-- Read an unsigned field. Only the bytes that the field touches are looked at: they are read as
one number, from which the bits before and after the field are cut. -/
def read (reader : Reader) (count : Nat) : Except Bits.Error (Nat × Reader) :=
  if maxFieldBits < count then
    .error (.tooWide count)
  else
    let needed := (reader.offset + count + 7) / 8
    let touched := reader.rest.take needed
    if touched.length < needed then
      .error (.unexpectedEnd count reader.remaining)
    else
      let after := needed * 8 - reader.offset - count
      .ok
        (Bytes.toNat touched / 2 ^ after % 2 ^ count,
          { rest := reader.rest.drop ((reader.offset + count) / 8)
            offset := (reader.offset + count) % 8
            position := reader.position + count })

def readSigned (reader : Reader) (count : Nat) : Except Bits.Error (Int × Reader) := do
  let (raw, next) ← reader.read count
  return (Int.bmod raw (2 ^ count), next)

def readBit (reader : Reader) : Except Bits.Error (Bool × Reader) := do
  let (raw, next) ← reader.read 1
  return (raw == 1, next)

end Reader
end Bits
end Spead
