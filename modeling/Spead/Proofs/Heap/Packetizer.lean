import Spead.Heap.Layout
import Spead.Proofs.Bytes

/-!
Packets handed out one after the other.

All but the last take as many bytes of the payload as a packet can carry, so the packets bring the
pieces of the payload in their order. None is left when the payload is used up.
-/

namespace Spead

/-! ## How many packets there are -/

theorem Heap.packetCount_of_le
    {sliceSize payloadLength : Nat} (positive : 0 < sliceSize)
    (short : payloadLength ≤ sliceSize) :
    packetCount sliceSize payloadLength = 1 := by
  unfold packetCount
  have : (payloadLength + sliceSize - 1) / sliceSize < 2 := by
    rw [Nat.div_lt_iff_lt_mul positive]
    omega
  omega

theorem Heap.packetCount_of_lt
    {sliceSize payloadLength : Nat} (positive : 0 < sliceSize) (long : sliceSize < payloadLength) :
    packetCount sliceSize payloadLength =
      packetCount sliceSize (payloadLength - sliceSize) + 1 := by
  have split : payloadLength + sliceSize - 1 =
      payloadLength - sliceSize + sliceSize - 1 + sliceSize := by omega
  have more : 1 ≤ (payloadLength - sliceSize + sliceSize - 1) / sliceSize :=
    (Nat.le_div_iff_mul_le positive).2 (by omega)
  unfold packetCount
  rw [split, Nat.add_div_right _ positive]
  omega

theorem Heap.packetCount_le {sliceSize : Nat} (positive : 0 < sliceSize) (payloadLength : Nat) :
    packetCount sliceSize payloadLength ≤ payloadLength + 1 := by
  have : (payloadLength + sliceSize - 1) / sliceSize < payloadLength + 1 := by
    have := Nat.le_mul_of_pos_right payloadLength positive
    rw [Nat.div_lt_iff_lt_mul positive, Nat.add_one_mul]
    omega
  unfold packetCount
  omega

namespace Packetizer

/-- A packetizer hands out these packets and no more. -/
inductive Emits : Packetizer → List Packet → Prop
  | nil {packetizer : Packetizer} :
      packetizer.next? = none →
      Emits packetizer []
  | cons {packetizer after : Packetizer} {packet : Packet} {rest : List Packet} :
      packetizer.next? = some (packet, after) →
      Emits after rest →
      Emits packetizer (packet :: rest)

theorem packetsAfter_of_emits
    {packetizer : Packetizer} {packets : List Packet} (emits : packetizer.Emits packets)
    {budget : Nat} (enough : packets.length ≤ budget) (given : List Packet) :
    packetsAfter budget packetizer given = given.reverse ++ packets := by
  induction emits generalizing budget given with
  | nil nothing =>
      cases budget with
      | zero => simp [packetsAfter]
      | succ budget => simp [packetsAfter, nothing]
  | @cons _ _ packet rest found _ inductionHypothesis =>
      cases budget with
      | zero => simp at enough
      | succ budget =>
          rw [List.length_cons, Nat.add_le_add_iff_right] at enough
          simp only [packetsAfter, found]
          rw [inductionHypothesis enough]
          simp

/-! ## Packets as pieces of the payload -/

def piece (packetizer : Packetizer) (place : Nat) (slice : Bytes) : Packet where
  heapCount := packetizer.heapCount
  heapLength := packetizer.heapLength
  payloadOffset := place * packetizer.sliceSize
  payloadLength := slice.length
  addressBits := packetizer.addressBits
  pointers := packetizer.pointers
  payload := slice

/-- The packetizer behind `place` slices of full size, if there is more to be handed out. -/
structure Behind (packetizer : Packetizer) (place : Nat) : Prop where
  nextOffset : packetizer.nextOffset = place * packetizer.sliceSize
  heapLength : packetizer.heapLength = packetizer.nextOffset + packetizer.rest.length
  more : packetizer.done = false

theorem Behind.next?_eq
    {packetizer : Packetizer} {place : Nat} (behind : packetizer.Behind place) :
    packetizer.next? =
      some (packetizer.piece place (packetizer.rest.take packetizer.sliceSize),
        { packetizer with
          nextOffset := min (packetizer.nextOffset + packetizer.sliceSize) packetizer.heapLength
          rest := packetizer.rest.drop packetizer.sliceSize
          done := packetizer.rest.length ≤ packetizer.sliceSize }) := by
  have stop : min (packetizer.nextOffset + packetizer.sliceSize) packetizer.heapLength -
      packetizer.nextOffset = min packetizer.sliceSize packetizer.rest.length := by
    rw [behind.heapLength]
    omega
  have last : packetizer.heapLength ≤
      min (packetizer.nextOffset + packetizer.sliceSize) packetizer.heapLength ↔
        packetizer.rest.length ≤ packetizer.sliceSize := by
    rw [behind.heapLength]
    omega
  have front : packetizer.rest.take (min packetizer.sliceSize packetizer.rest.length) =
      packetizer.rest.take packetizer.sliceSize := by
    rw [List.take_eq_take_iff]
    omega
  have back : packetizer.rest.drop (min packetizer.sliceSize packetizer.rest.length) =
      packetizer.rest.drop packetizer.sliceSize := by
    rw [List.drop_eq_drop_iff]
    omega
  unfold next?
  rw [if_neg (by simp [behind.more])]
  simp only [stop, last, front, back, piece, ← behind.nextOffset]

/-- The packets that are left bring the pieces of the payload that are left. -/
theorem Behind.emits
    {packetizer : Packetizer} {place : Nat} (behind : packetizer.Behind place)
    (positive : 0 < packetizer.sliceSize) {count : Nat}
    (counted : count = Heap.packetCount packetizer.sliceSize packetizer.rest.length) :
    packetizer.Emits (((Bytes.chunks packetizer.sliceSize count packetizer.rest).zipIdx place).map
      fun (slice, place) => packetizer.piece place slice) := by
  induction count generalizing packetizer place with
  | zero => 
      unfold Heap.packetCount at counted
      omega
  | succ count inductionHypothesis =>
      rw [Bytes.chunks_succ, List.zipIdx_cons, List.map_cons]
      refine .cons behind.next?_eq ?_
      by_cases last : packetizer.rest.length ≤ packetizer.sliceSize
      · rw [Heap.packetCount_of_le positive last] at counted
        cases Nat.succ.inj counted
        exact .nil (if_pos (by simpa using last))
      · rw [Heap.packetCount_of_lt positive (by omega), Nat.add_right_cancel_iff] at counted
        refine inductionHypothesis ?_ positive ?_
        · constructor
          case nextOffset =>
            simp only [behind.heapLength, behind.nextOffset, Nat.add_one_mul]
            omega
          case heapLength =>
            simp only [behind.heapLength, List.length_drop]
            omega
          case more => simpa using last
        · rw [counted, List.length_drop]

theorem Behind.packets_eq
    {packetizer : Packetizer} {place : Nat} (behind : packetizer.Behind place)
    (positive : 0 < packetizer.sliceSize) :
    packetizer.packets =
      ((Bytes.chunks packetizer.sliceSize
        (Heap.packetCount packetizer.sliceSize packetizer.rest.length) packetizer.rest).zipIdx
          place).map fun (slice, place) => packetizer.piece place slice := by
  have enough := Heap.packetCount_le positive packetizer.rest.length
  rw [packets, packetsAfter_of_emits (behind.emits positive rfl) (by simpa using enough)]
  rfl

/-- A packetizer is asked for packets until it has none. -/
theorem Behind.emits_packets
    {packetizer : Packetizer} {place : Nat} (behind : packetizer.Behind place)
    (positive : 0 < packetizer.sliceSize) :
    packetizer.Emits packetizer.packets := by
  rw [behind.packets_eq positive]
  exact behind.emits positive rfl

end Packetizer
end Spead
