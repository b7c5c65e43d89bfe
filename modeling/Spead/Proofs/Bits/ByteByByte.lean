import Mathlib.Algebra.Group.Defs
import Spead.Proofs.Bits.Cursor

/-!
Writing and reading byte by byte, on machine words.

The writer and the reader here move a field in pieces, each of which lies in one byte. The writer
holds its unfinished byte as it will be sent, with the known bits on top. Every shift has to be by
fewer bits than the word has, and every byte that is looked at has to be there: a step for which
this fails breaks, and there is no result. What they come to is what `append` and `read` say.
-/

namespace Spead
namespace Bits

/-! ## Words -/

/-- The word with the `count` low bits set. -/
def lowMask (count : Nat) : UInt64 :=
  if 64 ≤ count then UInt64.ofNat (2 ^ 64 - 1) else (1 <<< UInt64.ofNat count) - 1

def shiftRight? (word : UInt64) (amount : Nat) : Option UInt64 :=
  if amount < 64 then some (word >>> UInt64.ofNat amount) else none

def shiftLeft? (word : UInt64) (amount : Nat) : Option UInt64 :=
  if amount < 64 then some (word <<< UInt64.ofNat amount) else none

def shiftByteRight? (byte : UInt8) (amount : Nat) : Option UInt8 :=
  if amount < 8 then some (byte >>> UInt8.ofNat amount) else none

def shiftByteLeft? (byte : UInt8) (amount : Nat) : Option UInt8 :=
  if amount < 8 then some (byte <<< UInt8.ofNat amount) else none

theorem toNat_one_shiftLeft {count : Nat} (short : count < 64) :
    (1 <<< UInt64.ofNat count : UInt64).toNat = 2 ^ count := by
  have amount : (UInt64.ofNat count).toNat % 64 = count := by
    rw [UInt64.toNat_ofNat', Nat.mod_mod_of_dvd _ (by decide), Nat.mod_eq_of_lt short]
  have power : 2 ^ count < 2 ^ 64 := Nat.pow_lt_pow_right (by decide) short
  have one : (1 : UInt64).toNat = 1 := rfl
  rw [UInt64.toNat_shiftLeft, amount, one, Nat.one_shiftLeft, Nat.mod_eq_of_lt power]

theorem toNat_lowMask {count : Nat} (narrow : count ≤ 64) :
    (lowMask count).toNat = 2 ^ count - 1 := by
  unfold lowMask
  split
  · next whole =>
      have exact : count = 64 := by omega
      subst exact
      rfl
  · next short =>
      have power : 2 ^ count < 2 ^ 64 := Nat.pow_lt_pow_right (by decide) (by omega)
      have positive := Nat.two_pow_pos count
      have one : (1 : UInt64).toNat = 1 := rfl
      rw [UInt64.toNat_sub, toNat_one_shiftLeft (Nat.not_le.1 short), one]
      omega

theorem toNat_and_lowMask (word : UInt64) {count : Nat} (narrow : count ≤ 64) :
    (word &&& lowMask count).toNat = word.toNat % 2 ^ count := by
  rw [UInt64.toNat_and, toNat_lowMask narrow, Nat.and_two_pow_sub_one_eq_mod]

theorem shiftRight?_eq (word : UInt64) {amount : Nat} (short : amount < 64) :
    shiftRight? word amount = some (.ofNat (word.toNat / 2 ^ amount)) := by
  have small : word.toNat / 2 ^ amount < 2 ^ 64 :=
    (Nat.div_le_self _ _).trans_lt word.toNat_lt
  rw [shiftRight?, if_pos short, Option.some_inj, ← UInt64.toNat_inj, UInt64.toNat_shiftRight,
    UInt64.toNat_ofNat', UInt64.toNat_ofNat', Nat.mod_eq_of_lt small,
    Nat.mod_mod_of_dvd _ (by decide), Nat.mod_eq_of_lt short, Nat.shiftRight_eq_div_pow]

theorem shiftLeft?_eq (word : UInt64) {amount : Nat} (short : amount < 64) :
    shiftLeft? word amount = some (.ofNat (word.toNat * 2 ^ amount)) := by
  rw [shiftLeft?, if_pos short, Option.some_inj, ← UInt64.toNat_inj, UInt64.toNat_shiftLeft,
    UInt64.toNat_ofNat', UInt64.toNat_ofNat', Nat.mod_mod_of_dvd _ (by decide),
    Nat.mod_eq_of_lt short, Nat.shiftLeft_eq]

theorem shiftByteRight?_eq (byte : UInt8) {amount : Nat} (short : amount < 8) :
    shiftByteRight? byte amount = some (.ofNat (byte.toNat / 2 ^ amount)) := by
  have small : byte.toNat / 2 ^ amount < 2 ^ 8 :=
    (Nat.div_le_self _ _).trans_lt byte.toNat_lt
  rw [shiftByteRight?, if_pos short, Option.some_inj, ← UInt8.toNat_inj, UInt8.toNat_shiftRight,
    UInt8.toNat_ofNat', UInt8.toNat_ofNat', Nat.mod_eq_of_lt small,
    Nat.mod_mod_of_dvd _ (by decide), Nat.mod_eq_of_lt short, Nat.shiftRight_eq_div_pow]

theorem shiftByteLeft?_eq (byte : UInt8) {amount : Nat} (short : amount < 8) :
    shiftByteLeft? byte amount = some (.ofNat (byte.toNat * 2 ^ amount)) := by
  rw [shiftByteLeft?, if_pos short, Option.some_inj, ← UInt8.toNat_inj, UInt8.toNat_shiftLeft,
    UInt8.toNat_ofNat', UInt8.toNat_ofNat', Nat.mod_mod_of_dvd _ (by decide),
    Nat.mod_eq_of_lt short, Nat.shiftLeft_eq]

/-- Two fields joined are no wider than both together. -/
theorem joined_lt
    {known piece filled taken : Nat} (bounded : known < 2 ^ filled) (narrow : piece < 2 ^ taken) :
    known * 2 ^ taken + piece < 2 ^ (filled + taken) :=
  calc known * 2 ^ taken + piece
      < known * 2 ^ taken + 2 ^ taken := Nat.add_lt_add_left narrow _
    _ = (known + 1) * 2 ^ taken := by ring
    _ ≤ 2 ^ filled * 2 ^ taken := Nat.mul_le_mul_right _ bounded
    _ = 2 ^ (filled + taken) := (Nat.pow_add 2 _ _).symm

/-! ## Writing -/

/-- A writer that holds its unfinished byte as it will be sent. -/
structure ByteWriter where
  /-- Finished bytes, in order. -/
  bytes : Bytes := []
  pending : UInt8 := 0
  pendingBits : Nat := 0
  pendingBits_lt : pendingBits < 8 := by decide

namespace ByteWriter

theorem add_lt_of_ne
    (writer : ByteWriter) {taken : Nat} (fits : taken ≤ 8 - writer.pendingBits)
    (unfilled : writer.pendingBits + taken ≠ 8) : writer.pendingBits + taken < 8 := by
  have small := writer.pendingBits_lt
  omega

/-- Put the next piece of a field, as many bits as the unfinished byte has room for. The field has
`remaining` bits left, the low ones of `value`. -/
def step? (value : UInt64) (remaining : Nat) (writer : ByteWriter) : Option ByteWriter := do
  let room := 8 - writer.pendingBits
  let taken := min remaining room
  let piece := ((← shiftRight? value (remaining - taken)) &&& lowMask taken).toUInt8
  let pending := writer.pending ||| (← shiftByteLeft? piece (room - taken))
  if full : writer.pendingBits + taken = 8 then
    return { bytes := writer.bytes ++ [pending], pendingBits_lt := Nat.zero_lt_succ 7 }
  else
    return {
      bytes := writer.bytes
      pending
      pendingBits := writer.pendingBits + taken
      pendingBits_lt := writer.add_lt_of_ne (Nat.min_le_right _ _) full }

def put? (value : UInt64) (remaining : Nat) (writer : ByteWriter) : Option ByteWriter :=
  if remaining = 0 then
    some writer
  else do
    let next ← writer.step? value remaining
    put? value (remaining - min remaining (8 - writer.pendingBits)) next
termination_by remaining
decreasing_by
  have := writer.pendingBits_lt
  omega

/-- Write an unsigned field, with what is left behind if it is too wide. -/
def write? (value : UInt64) (count : Nat) (writer : ByteWriter) :
    Option (Except Bits.Error Unit × ByteWriter) :=
  if maxFieldBits < count then
    some (.error (.tooWide count), writer)
  else do
    let next ← writer.put? (value &&& lowMask count) count
    return (.ok (), next)

def writeEach? : Bytes → ByteWriter → Option (Except Bits.Error Unit × ByteWriter)
  | [], writer => some (.ok (), writer)
  | byte :: rest, writer => do
      let (outcome, next) ← writer.write? byte.toUInt64 8
      match outcome with
      | .ok () => writeEach? rest next
      | .error cause => return (.error cause, next)

/-- Write bytes. On a byte boundary they are copied. -/
def writeBytes? (data : Bytes) (writer : ByteWriter) :
    Option (Except Bits.Error Unit × ByteWriter) :=
  if writer.pendingBits = 0 then
    some (.ok (), { writer with bytes := writer.bytes ++ data })
  else
    writer.writeEach? data

def bitLength (writer : ByteWriter) : Nat :=
  writer.bytes.length * 8 + writer.pendingBits

def finish (writer : ByteWriter) : Bytes :=
  if 0 < writer.pendingBits then writer.bytes ++ [writer.pending] else writer.bytes

/-- A writer with its unfinished byte as it will be sent. -/
def of (writer : Writer) : ByteWriter where
  bytes := writer.emitted.reverse
  pending := UInt8.ofNat (writer.pending * 2 ^ (8 - writer.pendingCount))
  pendingBits := writer.pendingCount
  pendingBits_lt := writer.pendingCount_lt

theorem bitLength_of (writer : Writer) : (of writer).bitLength = writer.bitLength := by
  simp [bitLength, of, Writer.bitLength]

theorem finish_of (writer : Writer) : (of writer).finish = writer.finish := by
  unfold finish Writer.finish of
  by_cases whole : writer.pendingCount = 0
  · simp [whole]
  · simp [whole, Nat.pos_of_ne_zero whole]

/-- A piece is joined to the known bits of the unfinished byte. -/
theorem pending_or
    {known piece filled taken room : Nat} (bounded : known < 2 ^ filled)
    (narrow : piece < 2 ^ taken) (fits : filled + taken + room = 8) :
    UInt8.ofNat (known * 2 ^ (taken + room)) ||| UInt8.ofNat (piece * 2 ^ room) =
      UInt8.ofNat ((known * 2 ^ taken + piece) * 2 ^ room) := by
  have low : piece * 2 ^ room < 2 ^ (taken + room) := by
    rw [Nat.pow_add]
    exact Nat.mul_lt_mul_of_pos_right narrow (Nat.two_pow_pos _)
  have high : known * 2 ^ (taken + room) < 2 ^ 8 := by
    rw [← fits, Nat.add_assoc, Nat.pow_add 2 filled]
    exact Nat.mul_lt_mul_of_pos_right bounded (Nat.two_pow_pos _)
  have fitting : 2 ^ (taken + room) ≤ 2 ^ 8 := Nat.pow_le_pow_right (by decide) (by omega)
  have joined := Nat.two_pow_add_eq_or_of_lt low known
  have whole : 2 ^ (taken + room) * known + piece * 2 ^ room =
      (known * 2 ^ taken + piece) * 2 ^ room := by
    rw [Nat.pow_add]
    ring
  have bound : (known * 2 ^ taken + piece) * 2 ^ room < 2 ^ 8 := by
    rw [← fits, Nat.pow_add 2 _ room]
    exact Nat.mul_lt_mul_of_pos_right (joined_lt bounded narrow) (Nat.two_pow_pos _)
  rw [← UInt8.toNat_inj, UInt8.toNat_or, UInt8.toNat_ofNat', UInt8.toNat_ofNat',
    UInt8.toNat_ofNat', Nat.mod_eq_of_lt high, Nat.mod_eq_of_lt (low.trans_le fitting),
    Nat.mul_comm known, ← joined, whole, Nat.mod_eq_of_lt bound]

/-- A piece of a field is appended as a field of its own. -/
theorem step?_of
    (writer : Writer) (value : UInt64) {remaining : Nat} (positive : 0 < remaining)
    (narrow : remaining ≤ 64) :
    (of writer).step? value remaining =
      some (of (writer.append
        (value.toNat / 2 ^ (remaining - min remaining (8 - writer.pendingCount)))
        (min remaining (8 - writer.pendingCount)))) := by
  have unfinished := writer.pendingCount_lt
  generalize taking : min remaining (8 - writer.pendingCount) = taken
  obtain ⟨room, fits⟩ : ∃ room, writer.pendingCount + taken + room = 8 :=
    ⟨8 - writer.pendingCount - taken, by omega⟩
  have ahead : 8 - writer.pendingCount = taken + room := by omega
  have behind : 8 - writer.pendingCount - taken = room := by omega
  have small : value.toNat / 2 ^ (remaining - taken) < 2 ^ 64 :=
    (Nat.div_le_self _ _).trans_lt value.toNat_lt
  generalize high : value.toNat / 2 ^ (remaining - taken) = piece at small
  have pieceEq :
      (UInt64.ofNat piece &&& lowMask taken).toUInt8.toNat = piece % 2 ^ taken := by
    have tiny : piece % 2 ^ taken < 2 ^ 8 :=
      (Nat.mod_lt _ (Nat.two_pow_pos _)).trans_le (Nat.pow_le_pow_right (by decide) (by omega))
    rw [UInt64.toNat_toUInt8, toNat_and_lowMask _ (by omega), UInt64.toNat_ofNat',
      Nat.mod_eq_of_lt small, Nat.mod_eq_of_lt tiny]
  have within := Nat.mod_lt piece (Nat.two_pow_pos taken)
  have joined := pending_or writer.pending_lt within fits
  have whole := joined_lt writer.pending_lt within
  unfold step?
  simp only [of, taking, shiftRight?_eq value (show remaining - taken < 64 by omega), high,
    Option.bind_eq_bind, Option.bind_some, behind]
  rw [shiftByteLeft?_eq _ (show room < 8 by omega), pieceEq]
  simp only [Option.bind_some, ahead, joined, Writer.append]
  split
  · next full =>
      have none : room = 0 := by omega
      simp [full, none, Bytes.littleEndian]
  · next unfilled =>
      have less : writer.pendingCount + taken < 8 := by omega
      have left : 8 - (writer.pendingCount + taken) = room := by omega
      simp [Nat.mod_eq_of_lt less, Nat.div_eq_of_lt less, Nat.mod_eq_of_lt whole,
        Bytes.littleEndian, left]

/-- The pieces of a field make up the field. -/
theorem put?_of (writer : Writer) (value : UInt64) {count : Nat} (narrow : count ≤ 64) :
    (of writer).put? value count = some (of (writer.append value.toNat count)) := by
  induction count using Nat.strongRecOn generalizing writer with
  | ind count inductionHypothesis =>
      unfold put?
      split
      · next none => rw [none, writer.append_zero]
      · next some =>
          have unfinished := writer.pendingCount_lt
          have piece := step?_of writer value (Nat.pos_of_ne_zero some) narrow
          change (do
            let next ← (of writer).step? value count
            next.put? value (count - min count (8 - writer.pendingCount))) = _
          generalize taking : min count (8 - writer.pendingCount) = taken at piece ⊢
          obtain ⟨left, width⟩ : ∃ left, count = taken + left := ⟨count - taken, by omega⟩
          have rest : count - taken = left := by omega
          rw [rest] at piece ⊢
          rw [piece, Option.bind_eq_bind, Option.bind_some,
            inductionHypothesis left (by omega) _ (by omega), width, writer.append_add]

/-- Writing a field byte by byte comes to appending it, and a field that is too wide leaves the
writer as it is. -/
theorem write?_of (writer : Writer) (value : UInt64) (count : Nat) :
    (of writer).write? value count =
      match writer.write value.toNat count with
      | .ok next => some (.ok (), of next)
      | .error cause => some (.error cause, of writer) := by
  unfold write? Writer.write
  by_cases wide : maxFieldBits < count
  · rw [if_pos wide, if_neg (Nat.not_le.2 wide)]
  · have narrow : count ≤ 64 := Nat.not_lt.1 wide
    rw [if_neg wide, if_pos (show count ≤ maxFieldBits from narrow), put?_of writer _ narrow,
      toNat_and_lowMask value narrow, writer.append_mod]
    rfl

theorem writeEach?_of (writer : Writer) (data : Bytes) :
    (of writer).writeEach? data =
      some (.ok (), of (data.foldl (fun current byte => current.append byte.toNat 8) writer)) := by
  induction data generalizing writer with
  | nil => rfl
  | cons byte rest inductionHypothesis =>
      have written : writer.write byte.toUInt64.toNat 8 = .ok (writer.append byte.toNat 8) := rfl
      rw [writeEach?, write?_of, written]
      exact inductionHypothesis _

theorem writeBytes?_of (writer : Writer) (data : Bytes) :
    (of writer).writeBytes? data = some (.ok (), of (writer.writeBytes data)) := by
  unfold writeBytes?
  split
  · next whole =>
      have aligned : writer.pendingCount = 0 := whole
      simp [of, Writer.writeBytes, aligned]
  · rw [writeEach?_of, writer.writeBytes_eq_foldl]

end ByteWriter

/-! ## Reading -/

/-- A reader as a position in its bytes. -/
structure ByteReader where
  data : Bytes
  /-- How many bits have been read. -/
  position : Nat := 0

namespace ByteReader

/-- Number of bits not yet read, if the position is in the data. -/
def remaining? (reader : ByteReader) : Option Nat :=
  if reader.position ≤ reader.data.length * 8 then
    some (reader.data.length * 8 - reader.position)
  else
    none

/-- Take the next piece of a field, as many bits as the byte at the position has left. The field
has `remaining` bits left, and `result` holds those before them. -/
def step? (remaining : Nat) (result : UInt64) (reader : ByteReader) :
    Option (UInt64 × ByteReader) := do
  let byte ← reader.data[reader.position / 8]?
  let offset := reader.position % 8
  let taken := min remaining (8 - offset)
  let piece := (← shiftByteRight? byte (8 - offset - taken)).toUInt64 &&& lowMask taken
  return ((← shiftLeft? result taken) ||| piece,
    { reader with position := reader.position + taken })

def get? (remaining : Nat) (result : UInt64) (reader : ByteReader) :
    Option (UInt64 × ByteReader) :=
  if remaining = 0 then
    some (result, reader)
  else do
    let (joined, next) ← reader.step? remaining result
    get? (remaining - min remaining (8 - reader.position % 8)) joined next
termination_by remaining

/-- Read an unsigned field, with what is left behind if that fails. -/
def read? (count : Nat) (reader : ByteReader) : Option (Except Bits.Error UInt64 × ByteReader) :=
  if maxFieldBits < count then
    some (.error (.tooWide count), reader)
  else do
    let available ← reader.remaining?
    if available < count then
      return (.error (.unexpectedEnd count available), reader)
    else
      let (result, next) ← reader.get? count 0
      return (.ok result, next)

/-- A field that lies in one byte is what is left of the byte when the bits in front of the field
and those behind it are cut off. -/
theorem toNat_piece
    {data : Bytes} {position taken behind : Nat} (inside : position / 8 < data.length)
    (positive : 0 < taken) (fits : position % 8 + taken + behind = 8) :
    toNat (((ofBytes data).drop position).take taken) =
      data[position / 8].toNat / 2 ^ behind % 2 ^ taken := by
  have there : (data.drop (position / 8)).take 1 = [data[position / 8]] := by
    rw [List.drop_eq_getElem_cons inside]
    rfl
  have one : (position % 8 + taken + 7) / 8 = 1 := by omega
  have cut : position / 8 * 8 + position % 8 = position := by omega
  have rest : 1 * 8 - position % 8 - taken = behind := by omega
  have room : (Reader.mk (data.drop (position / 8)) (position % 8) 0).offset + taken ≤
      (Reader.mk (data.drop (position / 8)) (position % 8) 0).rest.length * 8 := by
    simp only [List.length_drop]
    omega
  have bits := Reader.take_bits room
  simp only [Reader.bits, one, there, ofBytes_drop, List.drop_drop, cut, rest,
    Bytes.toNat_singleton] at bits
  rw [bits, toNat_ofNat]

theorem step?_eq
    {data : Bytes} {position remaining : Nat} {result : UInt64} (positive : 0 < remaining)
    (narrow : remaining ≤ 64) (enough : position + remaining ≤ data.length * 8)
    (small : result.toNat < 2 ^ (64 - remaining)) :
    step? remaining result ⟨data, position⟩ =
      some (.ofNat (result.toNat * 2 ^ min remaining (8 - position % 8) +
          toNat (((ofBytes data).drop position).take (min remaining (8 - position % 8)))),
        ⟨data, position + min remaining (8 - position % 8)⟩) := by
  generalize taking : min remaining (8 - position % 8) = taken
  obtain ⟨behind, fits⟩ : ∃ behind, position % 8 + taken + behind = 8 :=
    ⟨8 - position % 8 - taken, by omega⟩
  have inside : position / 8 < data.length := by omega
  have shift : 8 - position % 8 - taken = behind := by omega
  have spelled := toNat_piece inside (by omega) fits
  have pieceSmall : data[position / 8].toNat / 2 ^ behind < 2 ^ 8 :=
    (Nat.div_le_self _ _).trans_lt (UInt8.toNat_lt _)
  have within := Nat.mod_lt (data[position / 8].toNat / 2 ^ behind) (Nat.two_pow_pos taken)
  have fitting : result.toNat * 2 ^ taken < 2 ^ 64 := by
    have scaled := Nat.mul_lt_mul_of_pos_right small (Nat.two_pow_pos taken)
    rw [← Nat.pow_add] at scaled
    exact scaled.trans_le (Nat.pow_le_pow_right (by decide) (by omega))
  have joined := Nat.two_pow_add_eq_or_of_lt within result.toNat
  have whole : result.toNat * 2 ^ taken + data[position / 8].toNat / 2 ^ behind % 2 ^ taken <
      2 ^ 64 :=
    (joined_lt small within).trans_le (Nat.pow_le_pow_right (by decide) (by omega))
  simp only [step?, List.getElem?_eq_getElem inside, taking, shift, spelled,
    shiftByteRight?_eq _ (show behind < 8 by omega), shiftLeft?_eq _ (show taken < 64 by omega),
    Option.bind_eq_bind, Option.bind_some]
  rw [Option.pure_def, Option.some_inj, Prod.mk.injEq, and_iff_left rfl, ← UInt64.toNat_inj,
    UInt64.toNat_or, toNat_and_lowMask _ (by omega), UInt8.toNat_toUInt64, UInt8.toNat_ofNat', UInt64.toNat_ofNat',
    UInt64.toNat_ofNat', Nat.mod_eq_of_lt pieceSmall, Nat.mod_eq_of_lt fitting,
    Nat.mod_eq_of_lt whole, Nat.mul_comm result.toNat, joined]

/-- The pieces of a field make up the field. -/
theorem get?_eq
    {data : Bytes} {position remaining : Nat} {result : UInt64} (narrow : remaining ≤ 64)
    (enough : position + remaining ≤ data.length * 8)
    (small : result.toNat < 2 ^ (64 - remaining)) :
    get? remaining result ⟨data, position⟩ =
      some (.ofNat (result.toNat * 2 ^ remaining +
          toNat (((ofBytes data).drop position).take remaining)),
        ⟨data, position + remaining⟩) := by
  induction remaining using Nat.strongRecOn generalizing position result with
  | ind remaining inductionHypothesis =>
      unfold get?
      split
      · next none =>
          subst none
          simp [toNat]
      · next some =>
          have step := step?_eq (Nat.pos_of_ne_zero some) narrow enough small
          change (do
            let (joined, next) ← step? remaining result ⟨data, position⟩
            next.get? (remaining - min remaining (8 - position % 8)) joined) = _
          generalize taking : min remaining (8 - position % 8) = taken at step ⊢
          obtain ⟨left, width⟩ : ∃ left, remaining = taken + left :=
            ⟨remaining - taken, by omega⟩
          have rest : remaining - taken = left := by omega
          have within := toNat_take_lt ((ofBytes data).drop position) taken
          have bound := joined_lt small within
          rw [show 64 - remaining + taken = 64 - left by omega] at bound
          have power : 2 ^ (64 - left) ≤ 2 ^ 64 := Nat.pow_le_pow_right Nat.zero_lt_two (by omega)
          have joined := UInt64.toNat_ofNat_of_lt' (bound.trans_le power)
          have parts : toNat (((ofBytes data).drop position).take (taken + left)) =
              toNat (((ofBytes data).drop position).take taken) * 2 ^ left +
                toNat (((ofBytes data).drop (position + taken)).take left) := by
            rw [toNat_take_add (by rw [List.length_drop, length_ofBytes]; omega), List.drop_drop]
          rw [rest, step, Option.bind_eq_bind, Option.bind_some]
          dsimp only
          rw [inductionHypothesis left (by omega) (by omega) (by omega) (by rwa [joined]), joined,
            width, parts, Nat.pow_add, Nat.add_assoc position, Nat.add_mul, Nat.mul_assoc,
            Nat.add_assoc]

/-- Reading a field byte by byte comes to reading it at once, and a field that is too wide or goes
past the end leaves the position as it is. -/
theorem read?_eq
    {data : Bytes} {position : Nat} (inside : position ≤ data.length * 8) (count : Nat) :
    read? count ⟨data, position⟩ =
      match (Reader.after data position).read count with
      | .ok (value, _) => some (.ok (.ofNat value), ⟨data, position + count⟩)
      | .error cause => some (.error cause, ⟨data, position⟩) := by
  unfold read?
  by_cases wide : maxFieldBits < count
  · rw [if_pos wide, Reader.read_of_wide wide]
  · have narrow : count ≤ maxFieldBits := Nat.not_lt.1 wide
    have known : remaining? ⟨data, position⟩ = some (data.length * 8 - position) := if_pos inside
    rw [if_neg wide, known, Option.bind_eq_bind, Option.bind_some]
    by_cases short : data.length * 8 < position + count
    · rw [if_pos (by omega), Reader.read_after_of_short narrow inside short]
      rfl
    · have enough : position + count ≤ data.length * 8 := Nat.not_lt.1 short
      have small : (0 : UInt64).toNat < 2 ^ (64 - count) := Nat.two_pow_pos _
      have zero : (0 : UInt64).toNat = 0 := rfl
      rw [if_neg (by omega), Reader.read_after narrow enough, get?_eq narrow enough small, zero,
        Nat.zero_mul, Nat.zero_add]
      rfl

end ByteReader

/-! ## Two's complement -/

def shiftSignedRight? (word : Int64) (amount : Nat) : Option Int64 :=
  if amount < 64 then some (word >>> Int64.ofNat amount) else none

/-- A field as a signed word: it is shifted to the top of the word and back. -/
def signExtend? (count : Nat) (raw : UInt64) : Option Int64 :=
  if count = 0 ∨ count = 64 then
    some raw.toInt64
  else do
    let shifted ← shiftLeft? raw (64 - count)
    shiftSignedRight? shifted.toInt64 (64 - count)

theorem toInt_toInt64 (word : UInt64) : word.toInt64.toInt = Int.bmod word.toNat (2 ^ 64) :=
  BitVec.toInt_eq_toNat_bmod word.toBitVec

theorem toNat_toUInt64 (value : Int64) :
    value.toUInt64.toNat = (value.toInt % 2 ^ 64).toNat := by
  have signed : value.toInt = Int.bmod value.toUInt64.toNat (2 ^ 64) :=
    BitVec.toInt_eq_toNat_bmod value.toBitVec
  have modulus : (2 ^ 64 : Int) = (2 ^ 64 : Nat) := rfl
  rw [signed, modulus, Int.bmod_emod, ← Int.natCast_mod,
    Nat.mod_eq_of_lt value.toUInt64.toNat_lt, Int.toNat_natCast]

theorem toNat_shiftAmount :
    ∀ amount < 64, ((Int64.ofNat amount).toBitVec.smod 64).toNat = amount := by
  decide +kernel

theorem shiftSignedRight?_eq (word : Int64) {amount : Nat} (short : amount < 64) :
    ∃ shifted, shiftSignedRight? word amount = some shifted ∧
      shifted.toInt = word.toInt / (2 ^ amount : Nat) := by
  refine ⟨_, if_pos short, ?_⟩
  rw [← Int64.toInt_toBitVec, Int64.toBitVec_shiftRight, BitVec.toInt_sshiftRight',
    toNat_shiftAmount amount short, Int64.toInt_toBitVec, Int.shiftRight_eq_div_pow]

/-- Numbers in two's complement, by the half of their range. -/
theorem bmod_double {number half : Nat} (small : number < 2 * half) :
    Int.bmod number (2 * half) = if number < half then (number : Int) else number - 2 * half := by
  have low : (number : Int) % (2 * half : Nat) = number := by
    rw [← Int.natCast_mod, Nat.mod_eq_of_lt small]
  have middle : (((2 * half : Nat) : Int) + 1) / 2 = half := by omega
  rw [Int.bmod_def, low, middle]
  push_cast
  simp only [Nat.cast_lt]

/-- A number that stands at the top of a word has the sign of the word. -/
theorem bmod_scaled {number count room : Nat} (positive : 0 < count) (small : number < 2 ^ count) :
    Int.bmod (number * 2 ^ room : Nat) (2 ^ (count + room)) =
      Int.bmod number (2 ^ count) * (2 ^ room : Nat) := by
  obtain ⟨low, rfl⟩ : ∃ low, count = low + 1 := ⟨count - 1, by omega⟩
  have unit := Nat.two_pow_pos room
  have whole : 2 ^ (low + 1) = 2 * 2 ^ low := Nat.pow_succ'
  have scaled : 2 ^ (low + 1 + room) = 2 * (2 ^ low * 2 ^ room) := by
    rw [Nat.pow_add, whole, Nat.mul_assoc]
  rw [whole] at small ⊢
  have scaledSmall : number * 2 ^ room < 2 * (2 ^ low * 2 ^ room) := by
    rw [← Nat.mul_assoc]
    exact Nat.mul_lt_mul_of_pos_right small unit
  rw [scaled, bmod_double scaledSmall, bmod_double small]
  simp only [Nat.mul_lt_mul_right unit]
  split
  · push_cast
    rfl
  · push_cast
    ring

theorem signExtend?_eq
    {count : Nat} (raw : UInt64) (narrow : count ≤ 64) (small : raw.toNat < 2 ^ count) :
    ∃ value, signExtend? count raw = some value ∧
      value.toInt = Int.bmod raw.toNat (2 ^ count) := by
  unfold signExtend?
  split
  · next simple =>
      refine ⟨_, rfl, ?_⟩
      rcases simple with rfl | rfl
      · have zero : raw.toNat = 0 := Nat.lt_one_iff.1 small
        rw [toInt_toInt64, zero]
        rfl
      · exact toInt_toInt64 raw
  · next shifted =>
      rw [not_or] at shifted
      obtain ⟨room, width⟩ : ∃ room, 64 = count + room := ⟨64 - count, by omega⟩
      have amount : 64 - count = room := by omega
      have fitting : raw.toNat * 2 ^ room < 2 ^ 64 := by
        rw [width, Nat.pow_add]
        exact Nat.mul_lt_mul_of_pos_right small (Nat.two_pow_pos room)
      obtain ⟨value, back, content⟩ := shiftSignedRight?_eq
        (UInt64.ofNat (raw.toNat * 2 ^ room)).toInt64 (show room < 64 by omega)
      refine ⟨value, ?_, ?_⟩
      · rw [amount, shiftLeft?_eq raw (by omega)]
        exact back
      · rw [content, toInt_toInt64, UInt64.toNat_ofNat_of_lt' fitting, width,
          bmod_scaled (Nat.pos_of_ne_zero shifted.1) small]
        exact Int.mul_ediv_cancel _ (Nat.cast_ne_zero.2 (Nat.two_pow_pos room).ne')

namespace ByteReader

/-- Read a field in two's complement, with what is left behind if that fails. -/
def readSigned? (count : Nat) (reader : ByteReader) :
    Option (Except Bits.Error Int64 × ByteReader) := do
  let (outcome, next) ← reader.read? count
  match outcome with
  | .ok raw =>
      let value ← signExtend? count raw
      return (.ok value, next)
  | .error cause => return (.error cause, next)

end ByteReader

end Bits
end Spead
