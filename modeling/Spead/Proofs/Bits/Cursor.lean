import Spead.Bits.Reader
import Spead.Proofs.Bits
import Spead.Proofs.Bits.Strings

/-!
Writing and reading strings of bits.

A writer stands for the bits written so far and a reader for those that are left. To write a field
is to spell it at the end, and to read one is to take as many bits from the front; only when it
has finished, a writer fills up the last byte with zeros.
-/

namespace Spead
namespace Bits

/-! ## Writing -/

namespace Writer

def bits (writer : Writer) : List Bool :=
  ofBytes writer.emitted.reverse ++ ofNat writer.pendingCount writer.pending

@[simp] theorem bits_empty : empty.bits = [] :=
  rfl

@[simp] theorem length_bits (writer : Writer) : writer.bits.length = writer.bitLength := by
  simp [bits, bitLength]

theorem bits_append (writer : Writer) (value count : Nat) :
    (writer.append value count).bits = writer.bits ++ ofNat count value := by
  have split :
      (writer.pendingCount + count) / 8 * 8 + (writer.pendingCount + count) % 8 =
        writer.pendingCount + count := by
    omega
  simp only [bits, append, List.reverse_append, ofBytes_append, List.append_assoc]
  rw [← Bytes.bigEndian, ofBytes_bigEndian, ofNat_mod (Nat.le_refl _), ← ofNat_add, split,
    ofNat_joined]

/-- A writer is determined by the bits that it has written. -/
theorem eq_of_bits_eq {left right : Writer} (same : left.bits = right.bits) : left = right := by
  have leftSmall := left.pendingCount_lt
  have rightSmall := right.pendingCount_lt
  have lengths := congrArg List.length same
  rw [length_bits, length_bits, bitLength, bitLength] at lengths
  have counts : left.pendingCount = right.pendingCount := by omega
  have bytes : (ofBytes left.emitted.reverse).length = (ofBytes right.emitted.reverse).length := by
    rw [length_ofBytes, length_ofBytes, List.length_reverse, List.length_reverse]
    omega
  obtain ⟨emitted, pending⟩ := List.append_inj same bytes
  have numbers := congrArg toNat pending
  rw [toNat_ofNat, toNat_ofNat, Nat.mod_eq_of_lt left.pending_lt,
    Nat.mod_eq_of_lt right.pending_lt] at numbers
  have reversed := List.reverse_injective (ofBytes_injective emitted)
  cases left
  cases right
  simp_all

theorem append_zero (writer : Writer) (value : Nat) : writer.append value 0 = writer := by
  apply eq_of_bits_eq
  rw [bits_append, ofNat, List.append_nil]

/-- A field is appended in two pieces, the high one first. -/
theorem append_add (writer : Writer) (value high low : Nat) :
    writer.append value (high + low) = (writer.append (value / 2 ^ low) high).append value low := by
  apply eq_of_bits_eq
  rw [bits_append, bits_append, bits_append, ofNat_add, List.append_assoc]

theorem append_mod (writer : Writer) (value count : Nat) :
    writer.append (value % 2 ^ count) count = writer.append value count := by
  apply eq_of_bits_eq
  rw [bits_append, bits_append, ofNat_mod (Nat.le_refl _)]

theorem bits_foldl_append (writer : Writer) (bytes : Bytes) :
    (bytes.foldl (fun current byte => current.append byte.toNat 8) writer).bits =
      writer.bits ++ ofBytes bytes := by
  induction bytes generalizing writer with
  | nil => exact (List.append_nil _).symm
  | cons byte rest inductionHypothesis =>
      rw [List.foldl_cons, inductionHypothesis, bits_append, List.append_assoc]
      rfl

/-- On a byte boundary or not, bytes are appended as fields of eight bits. -/
theorem writeBytes_eq_foldl (writer : Writer) (bytes : Bytes) :
    writer.writeBytes bytes =
      bytes.foldl (fun current byte => current.append byte.toNat 8) writer := by
  unfold writeBytes
  split
  · next whole =>
      apply eq_of_bits_eq
      rw [bits_foldl_append]
      simp [bits, whole, ofNat]
  · rfl

theorem bits_writeBytes (writer : Writer) (bytes : Bytes) :
    (writer.writeBytes bytes).bits = writer.bits ++ ofBytes bytes := by
  rw [writeBytes_eq_foldl, bits_foldl_append]

/-- The last byte is filled up with zeros. -/
theorem ofBytes_finish (writer : Writer) :
    ofBytes writer.finish =
      writer.bits ++ List.replicate (writer.finish.length * 8 - writer.bitLength) false := by
  have small := writer.pendingCount_lt
  unfold finish bits bitLength
  by_cases whole : writer.pendingCount = 0
  · rw [if_pos whole, whole, List.length_reverse, Nat.add_zero, Nat.sub_self]
    simp [ofNat]
  · have room : writer.pendingCount + (8 - writer.pendingCount) = 8 := by omega
    have filled :
        writer.pending * 2 ^ (8 - writer.pendingCount) < 2 ^ 8 := by
      have scaled :=
        Nat.mul_lt_mul_of_pos_right writer.pending_lt (Nat.two_pow_pos (8 - writer.pendingCount))
      rwa [← Nat.pow_add, room] at scaled
    have last :
        ofBytes [UInt8.ofNat (writer.pending * 2 ^ (8 - writer.pendingCount))] =
          ofNat writer.pendingCount writer.pending ++
            List.replicate (8 - writer.pendingCount) false := by
      have joined := ofNat_joined writer.pendingCount (8 - writer.pendingCount) writer.pending 0
      rw [Nat.zero_mod, Nat.add_zero, ofNat_zero, room] at joined
      rw [ofBytes_eq, Bytes.toNat_singleton, UInt8.toNat_ofNat', Nat.mod_eq_of_lt filled]
      exact joined
    have left :
        (writer.emitted.length + 1) * 8 - (writer.emitted.length * 8 + writer.pendingCount) =
          8 - writer.pendingCount := by
      omega
    rw [if_neg whole, List.length_reverse, List.length_cons, left, List.reverse_cons,
      ofBytes_append, last, List.append_assoc]

end Writer

/-! ## Reading -/

namespace Reader

def bits (reader : Reader) : List Bool :=
  (ofBytes reader.rest).drop reader.offset

theorem length_bits (reader : Reader) : reader.bits.length = reader.remaining := by
  simp [bits, remaining]

def skip (reader : Reader) (count : Nat) : Reader where
  rest := reader.rest.drop ((reader.offset + count) / 8)
  offset := (reader.offset + count) % 8
  position := reader.position + count

theorem bits_skip (reader : Reader) (count : Nat) :
    (reader.skip count).bits = reader.bits.drop count := by
  have split : (reader.offset + count) / 8 * 8 + (reader.offset + count) % 8 =
      reader.offset + count := by
    omega
  simp only [bits, skip]
  rw [ofBytes_drop, List.drop_drop, List.drop_drop, split]

theorem skip_skip (reader : Reader) (first second : Nat) :
    (reader.skip first).skip second = reader.skip (first + second) := by
  have front : (reader.offset + first) / 8 + ((reader.offset + first) % 8 + second) / 8 =
      (reader.offset + (first + second)) / 8 := by
    omega
  have inside : ((reader.offset + first) % 8 + second) % 8 =
      (reader.offset + (first + second)) % 8 := by
    omega
  simp only [skip, List.drop_drop, front, inside, Nat.add_assoc]

def after (data : Bytes) (position : Nat) : Reader :=
  ({ rest := data } : Reader).skip position

theorem skip_after (data : Bytes) (position count : Nat) :
    (after data position).skip count = after data (position + count) :=
  skip_skip _ _ _

theorem bits_after (data : Bytes) (position : Nat) :
    (after data position).bits = (ofBytes data).drop position := by
  rw [after, bits_skip]
  rfl

theorem remaining_after (data : Bytes) (position : Nat) :
    (after data position).remaining = data.length * 8 - position := by
  rw [← length_bits, bits_after, List.length_drop, length_ofBytes]

section Read

variable {reader : Reader} {count : Nat} (enough : reader.offset + count ≤ reader.rest.length * 8)

include enough

/-- The bytes that a field touches, cut into what is in front of it, the field and the rest. -/
theorem take_bits :
    reader.bits.take count =
      ofNat count
        (Bytes.toNat (reader.rest.take ((reader.offset + count + 7) / 8)) /
          2 ^ ((reader.offset + count + 7) / 8 * 8 - reader.offset - count)) := by
  generalize needed : (reader.offset + count + 7) / 8 = touched
  have inside : touched ≤ reader.rest.length := by omega
  obtain ⟨after, width⟩ : ∃ after, touched * 8 = reader.offset + (count + after) :=
    ⟨touched * 8 - reader.offset - count, by omega⟩
  have behind : touched * 8 - reader.offset - count = after := by omega
  have front : ofBytes (reader.rest.take touched) =
      ofNat (reader.offset + (count + after)) (Bytes.toNat (reader.rest.take touched)) := by
    rw [ofBytes_eq, List.length_take_of_le inside, width]
  have whole : ofBytes reader.rest =
      ofBytes (reader.rest.take touched) ++ ofBytes (reader.rest.drop touched) := by
    rw [← ofBytes_append, List.take_append_drop]
  rw [bits, whole, front, behind, ofNat_add, ofNat_add, List.append_assoc, List.append_assoc,
    List.drop_left' (length_ofNat _ _), List.take_left' (length_ofNat _ _)]

/-- A field is read as the number that the next bits spell. -/
theorem read_eq_ok (narrow : count ≤ maxFieldBits) :
    reader.read count = .ok (toNat (reader.bits.take count), reader.skip count) := by
  have touched :
      (reader.rest.take ((reader.offset + count + 7) / 8)).length =
        (reader.offset + count + 7) / 8 :=
    List.length_take_of_le (by omega)
  unfold read
  dsimp only
  rw [if_neg (Nat.not_lt.2 narrow), touched, if_neg (Nat.lt_irrefl _), take_bits enough,
    toNat_ofNat]
  rfl

end Read

theorem read_of_wide {count : Nat} (wide : maxFieldBits < count) (reader : Reader) :
    reader.read count = .error (.tooWide count) :=
  if_pos wide

/-- A field that goes past the end is not read. -/
theorem read_of_short
    {reader : Reader} {count : Nat} (narrow : count ≤ maxFieldBits)
    (short : reader.rest.length * 8 < reader.offset + count) :
    reader.read count = .error (.unexpectedEnd count reader.remaining) := by
  have missing : (reader.rest.take ((reader.offset + count + 7) / 8)).length <
      (reader.offset + count + 7) / 8 := by
    rw [List.length_take]
    omega
  unfold read
  dsimp only
  rw [if_neg (Nat.not_lt.2 narrow), if_pos missing]

section After

variable {data : Bytes} {position count : Nat}

theorem offset_add_le_after_iff (inside : position ≤ data.length * 8) :
    (after data position).offset + count ≤ (after data position).rest.length * 8 ↔
      position + count ≤ data.length * 8 := by
  simp only [after, skip, List.length_drop]
  omega

theorem read_after
    (narrow : count ≤ maxFieldBits) (enough : position + count ≤ data.length * 8) :
    (after data position).read count =
      .ok (toNat (((ofBytes data).drop position).take count), after data (position + count)) := by
  have inside : position ≤ data.length * 8 := by omega
  rw [read_eq_ok ((offset_add_le_after_iff inside).2 enough) narrow, bits_after, skip_after]

theorem read_after_of_short
    (narrow : count ≤ maxFieldBits) (inside : position ≤ data.length * 8)
    (short : data.length * 8 < position + count) :
    (after data position).read count =
      .error (.unexpectedEnd count (data.length * 8 - position)) := by
  rw [read_of_short narrow, remaining_after]
  rw [← Nat.not_le, offset_add_le_after_iff inside]
  omega

end After

/-- What is spelled in front is read, and the rest is left. -/
theorem read_of_bits
    {reader : Reader} {count value : Nat} {behind : List Bool} (positive : 0 < count)
    (narrow : count ≤ maxFieldBits) (spelled : reader.bits = ofNat count value ++ behind) :
    reader.read count = .ok (value % 2 ^ count, reader.skip count) ∧
      (reader.skip count).bits = behind := by
  have length := congrArg List.length spelled
  rw [length_bits, remaining, List.length_append, length_ofNat] at length
  constructor
  · rw [read_eq_ok (by omega) narrow, spelled, List.take_left' (length_ofNat _ _), toNat_ofNat]
  · rw [bits_skip, spelled, List.drop_left' (length_ofNat _ _)]

/-- A computation makes these bits into a value, wherever a reader finds them, and goes no
further. -/
def Reads
    {result : Type} (step : StateT Reader (Except Bits.Error) result) (spelled : List Bool)
    (value : result) : Prop :=
  ∀ reader behind, reader.bits = spelled ++ behind →
    ∃ next, step.run reader = .ok (value, next) ∧ next.bits = behind

theorem Reads.mapM
    {item result : Type} {step : item → StateT Reader (Except Bits.Error) result}
    {spell : item → result → List Bool} {items : List item} {results : List result}
    (related : List.Forall₂ (fun item value => Reads (step item) (spell item value) value)
      items results) :
    Reads (items.mapM step) ((items.zip results).flatMap fun entry => spell entry.1 entry.2)
      results := by
  induction related with
  | nil =>
      intro reader behind spelled
      exact ⟨reader, rfl, spelled⟩
  | cons head _ inductionHypothesis =>
      intro reader behind spelled
      rw [List.zip_cons_cons, List.flatMap_cons, List.append_assoc] at spelled
      obtain ⟨middle, first, left⟩ := head reader _ spelled
      obtain ⟨next, others, leftOver⟩ := inductionHypothesis middle behind left
      refine ⟨next, ?_, leftOver⟩
      rw [List.mapM_cons, StateT.run_bind]
      refine Except.bind_eq_ok_iff.2 ⟨_, first, ?_⟩
      rw [StateT.run_bind]
      exact Except.bind_eq_ok_iff.2 ⟨_, others, rfl⟩

/-- A computation succeeds wherever a reader has so many bits left, and goes just past them. -/
def Takes
    {result : Type} (step : StateT Reader (Except Bits.Error) result) (width : Nat) : Prop :=
  ∀ reader, width ≤ reader.bits.length →
    ∃ value next, step.run reader = .ok (value, next) ∧ next.bits = reader.bits.drop width

theorem Takes.mapM
    {item result : Type} {step : item → StateT Reader (Except Bits.Error) result}
    {width : item → Nat} (each : ∀ entry, Takes (step entry) (width entry)) (items : List item) :
    Takes (items.mapM step) (items.map width).sum := by
  induction items with
  | nil => exact fun reader _ => ⟨[], reader, rfl, rfl⟩
  | cons first rest inductionHypothesis =>
      intro reader enough
      rw [List.map_cons, List.sum_cons] at enough ⊢
      obtain ⟨head, middle, taken, left⟩ := each first reader (by omega)
      have room : (rest.map width).sum ≤ middle.bits.length := by
        rw [left, List.length_drop]
        omega
      obtain ⟨tail, next, others, leftOver⟩ := inductionHypothesis middle room
      refine ⟨head :: tail, next, ?_, ?_⟩
      · rw [List.mapM_cons, StateT.run_bind]
        refine Except.bind_eq_ok_iff.2 ⟨_, taken, ?_⟩
        rw [StateT.run_bind]
        exact Except.bind_eq_ok_iff.2 ⟨_, others, rfl⟩
      · rw [leftOver, left, List.drop_drop]

end Reader

end Bits
end Spead
