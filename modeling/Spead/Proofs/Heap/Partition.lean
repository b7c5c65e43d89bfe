import Spead.Proofs.Heap.Cutting

/-!
The packets of a heap as a division of its payload.

A heap is cut into packets if it has a layout whose numbers fit, and if a packet has room for the
pointers and, unless there is no payload, for a byte of it. The packets then bring the payload piece
by piece, in its order.
-/

namespace Spead
namespace Heap

/-- Packets of a heap that bring its payload piece by piece, and are as long as they may be. -/
structure Partition
    (heap : Heap) (pointers : List UInt64) (payload : Bytes) (maxPacketSize : Nat)
    (packets : List Packet) : Prop where
  carries : ∀ packet ∈ packets, heap.Carries pointers payload packet
  contiguous : ∀ earlier packet later, packets = earlier ++ packet :: later →
    packet.payloadOffset = (earlier.map fun other => other.payload.length).sum
  whole : packets.flatMap Packet.payload = payload
  /-- A packet brings nothing only if there is nothing to bring. -/
  occupied : payload ≠ [] → ∀ packet ∈ packets, packet.payload ≠ []
  atMost : ∀ packet ∈ packets, packet.toBytes.length ≤ maxPacketSize
  /-- All packets but the last are of full size. -/
  full : ∀ earlier packet later, packets = earlier ++ packet :: later → later ≠ [] →
    packet.toBytes.length = maxPacketSize

/-! ## Where the packets begin -/

section CutInto

variable {heap : Heap} {pointers : List UInt64} {payload : Bytes} {sliceSize : Nat}
  {packets : List Packet}

theorem CutInto.length_packets (cut : heap.CutInto pointers payload sliceSize packets) :
    packets.length = packetCount sliceSize payload.length := by
  rw [cut.packets]
  simp

theorem CutInto.start_lt
    (cut : heap.CutInto pointers payload sliceSize packets) (occupied : payload ≠ [])
    {place : Nat} (inside : place < packetCount sliceSize payload.length) :
    place * sliceSize < payload.length := by
  have positive := cut.sliceSize_pos
  have length := List.length_pos_iff.2 occupied
  unfold packetCount at inside
  have one : 1 ≤ (payload.length + sliceSize - 1) / sliceSize :=
    (Nat.le_div_iff_mul_le positive).2 (by omega)
  have before : (place + 1) * sliceSize ≤ payload.length + sliceSize - 1 :=
    (Nat.le_div_iff_mul_le positive).1 (by omega)
  rw [Nat.add_one_mul] at before
  omega

/-- What stands behind some packets of a cut is the piece at their number. -/
theorem CutInto.eq_slicePacket
    (cut : heap.CutInto pointers payload sliceSize packets) {earlier later : List Packet}
    {packet : Packet} (split : packets = earlier ++ packet :: later) :
    earlier.length < packetCount sliceSize payload.length ∧
      packet = heap.slicePacket pointers payload sliceSize earlier.length
        ((payload.drop (earlier.length * sliceSize)).take sliceSize) := by
  have inside : earlier.length < packetCount sliceSize payload.length := by
    rw [← cut.length_packets, split, List.length_append, List.length_cons]
    omega
  have found : packets[earlier.length]? = some packet := by
    rw [split, List.getElem?_append_right (Nat.le_refl _), Nat.sub_self]
    rfl
  rw [cut.packets, List.getElem?_map, List.getElem?_zipIdx, Bytes.getElem?_chunks payload inside]
    at found
  simp only [Option.map_some, Option.some_inj, Nat.zero_add] at found
  exact ⟨inside, found.symm⟩

/-- A packet that is not the last one brings as much as a packet can. -/
theorem CutInto.length_of_not_last
    (cut : heap.CutInto pointers payload sliceSize packets) {earlier later : List Packet}
    {packet : Packet} (split : packets = earlier ++ packet :: later) (notLast : later ≠ []) :
    packet.payload.length = sliceSize := by
  obtain ⟨_, same⟩ := cut.eq_slicePacket split
  have next : earlier.length + 1 < packetCount sliceSize payload.length := by
    have := List.length_pos_of_ne_nil notLast
    rw [← cut.length_packets, split, List.length_append, List.length_cons]
    omega
  have start := cut.start_le next
  rw [Nat.add_one_mul] at start
  simp only [same, slicePacket, List.length_take, List.length_drop]
  omega

theorem CutInto.contiguous
    (cut : heap.CutInto pointers payload sliceSize packets) {earlier later : List Packet}
    {packet : Packet} (split : packets = earlier ++ packet :: later) :
    packet.payloadOffset = (earlier.map fun other => other.payload.length).sum := by
  have full : ∀ length ∈ earlier.map fun other => other.payload.length, length = sliceSize := by
    intro length member
    obtain ⟨other, inFront, rfl⟩ := List.mem_map.1 member
    obtain ⟨first, middle, rfl⟩ := List.append_of_mem inFront
    rw [List.append_assoc] at split
    exact cut.length_of_not_last split (by simp)
  obtain ⟨_, same⟩ := cut.eq_slicePacket split
  rw [List.eq_replicate_of_mem full, List.sum_replicate, List.length_map, same]
  rfl

theorem CutInto.whole (cut : heap.CutInto pointers payload sliceSize packets) :
    packets.flatMap Packet.payload = payload := by
  have slices : packets.map Packet.payload =
      Bytes.chunks sliceSize (packetCount sliceSize payload.length) payload := by
    rw [cut.packets, List.map_map]
    exact List.zipIdx_map_fst 0 _
  have enough : payload.length ≤ packetCount sliceSize payload.length * sliceSize := by
    have positive := cut.sliceSize_pos
    have split := Nat.div_add_mod' (payload.length + sliceSize - 1) sliceSize
    have small := Nat.mod_lt (payload.length + sliceSize - 1) positive
    have atLeast : (payload.length + sliceSize - 1) / sliceSize * sliceSize ≤
        packetCount sliceSize payload.length * sliceSize :=
      Nat.mul_le_mul_right _ (Nat.le_max_right _ _)
    omega
  rw [List.flatMap_def, slices, Bytes.flatten_chunks, List.take_of_length_le enough]

theorem CutInto.occupied
    (cut : heap.CutInto pointers payload sliceSize packets) (occupied : payload ≠ []) :
    ∀ packet ∈ packets, packet.payload ≠ [] := by
  intro packet member
  obtain ⟨place, inside, rfl⟩ := (cut.mem_packets_iff packet).1 member
  have positive := cut.sliceSize_pos
  have start := cut.start_lt occupied inside
  rw [← List.length_pos_iff]
  simp only [slicePacket, List.length_take, List.length_drop]
  omega

end CutInto

/-! ## Whole heaps -/

theorem sizeFor_eq (pointerCount payloadLength : Nat) :
    Packet.sizeFor pointerCount payloadLength = 40 + 8 * pointerCount + payloadLength := by
  simp only [Packet.sizeFor, Packet.headerSize, Packet.pointerSize, PacketItem.all,
    List.length_cons, List.length_nil]
  omega

theorem cuttable_iff
    {heap : Heap} {pointers : List UInt64} {payload : Bytes} {maxPacketSize : Nat} :
    heap.Cuttable pointers payload maxPacketSize ↔
      heap.layout = .ok (pointers, payload) ∧ pointers.length ≤ 65531 ∧
        heap.count < 2 ^ heap.flavour.addressBits ∧
        payload.length < 2 ^ heap.flavour.addressBits ∧
        40 + 8 * pointers.length + (if payload = [] then 0 else 1) ≤ maxPacketSize := by
  have fits (value : Nat) :
      value ≤ heap.flavour.maxAddress ↔ value < 2 ^ heap.flavour.addressBits :=
    Nat.le_sub_one_iff_lt (Nat.two_pow_pos _)
  have counted : PacketItem.all.length + pointers.length ≤ Packet.maxPointers ↔
      pointers.length ≤ 65531 := by
    rw [PacketItem.all, Packet.maxPointers, List.length_cons]
    simp only [List.length_cons, List.length_nil]
    omega
  have room : Packet.sizeFor pointers.length 0 + (if payload.isEmpty then 0 else 1) =
      40 + 8 * pointers.length + (if payload = [] then 0 else 1) := by
    simp only [sizeFor_eq, List.isEmpty_iff, Nat.add_zero]
  rw [← fits, ← fits, ← counted, ← room]
  constructor
  · intro cuttable
    exact ⟨cuttable.layout, cuttable.pointerCount, cuttable.heapCount, cuttable.heapLength,
      cuttable.room⟩
  · rintro ⟨layout, pointerCount, heapCount, heapLength, room⟩
    exact ⟨layout, pointerCount, heapCount, heapLength, room⟩

theorem Cuttable.partition
    {heap : Heap} {pointers : List UInt64} {payload : Bytes} {maxPacketSize : Nat}
    (cuttable : heap.Cuttable pointers payload maxPacketSize) :
    heap.Partition pointers payload maxPacketSize
      (heap.uncut pointers payload maxPacketSize).packets := by
  have cut := cuttable.cutInto
  have room := cuttable.room
  have size {packet : Packet}
      (member : packet ∈ (heap.uncut pointers payload maxPacketSize).packets) :
      packet.toBytes.length = Packet.sizeFor pointers.length 0 + packet.payload.length := by
    rw [packet.length_toBytes, Packet.size, (cut.carries member).pointers, sizeFor_eq, sizeFor_eq,
      Nat.add_zero]
  -- Packets with a slice have room for one.
  have sliceSize (occupied : payload ≠ []) :
      Packet.sizeFor pointers.length 0 +
        max 1 (maxPacketSize - Packet.sizeFor pointers.length 0) = maxPacketSize := by
    rw [if_neg (by simpa using occupied)] at room
    omega
  constructor
  case carries => exact fun packet member => cut.carries member
  case contiguous => exact fun earlier packet later split => cut.contiguous split
  case whole => exact cut.whole
  case occupied => exact cut.occupied
  case atMost =>
    intro packet member
    rw [size member]
    by_cases empty : payload = []
    · have inside := (cut.carries member).inside
      rw [(cut.carries member).payloadLength, empty, List.length_nil] at inside
      omega
    · obtain ⟨place, _, rfl⟩ := (cut.mem_packets_iff packet).1 member
      have := sliceSize empty
      simp only [slicePacket, List.length_take]
      omega
  case full =>
    intro earlier packet later split notLast
    have member : packet ∈ (heap.uncut pointers payload maxPacketSize).packets := by
      rw [split]
      simp
    have length := cut.length_of_not_last split notLast
    have occupied : payload ≠ [] := by
      rintro rfl
      have inside := (cut.carries member).inside
      rw [(cut.carries member).payloadLength, List.length_nil] at inside
      omega
    rw [size member, length, sliceSize occupied]

/-- Where the next slice would end is a word, however long packets may be. -/
theorem Cuttable.stop_lt
    {heap : Heap} {pointers : List UInt64} {payload : Bytes} {maxPacketSize : Nat}
    (cuttable : heap.Cuttable pointers payload maxPacketSize) (small : maxPacketSize < wordLimit) :
    ∀ packet ∈ (heap.uncut pointers payload maxPacketSize).packets,
      packet.payloadOffset + (heap.uncut pointers payload maxPacketSize).sliceSize < wordLimit := by
  intro packet member
  have cut := cuttable.cutInto
  obtain ⟨place, inside, rfl⟩ := (cut.mem_packets_iff packet).1 member
  have start := cut.start_le inside
  have fits := cuttable.heapLength
  have limit := heap.flavour.maxAddress_lt_wordLimit
  simp only [slicePacket, uncut]
  by_cases first : place = 0
  · rw [first, Nat.zero_mul, Nat.zero_add]
    exact max_lt (by decide) (Nat.lt_of_le_of_lt (Nat.sub_le _ _) small)
  · have front := Nat.le_mul_of_pos_left
      (max 1 (maxPacketSize - Packet.sizeFor pointers.length 0)) (Nat.pos_of_ne_zero first)
    omega

/-- A heap is cut into packets exactly if it has a layout with at most 65531 pointers, its number and
the length of its payload fit the width of an address, and a packet has room for the pointers and
for a byte of the payload, if there is any. The packets are handed out until none is left. There are
as many as were announced, none is longer than it may be, and they bring the payload piece by piece,
without a sum that is no word. Each of them is read back from its bytes if no item of the heap has
an id of theirs. -/
theorem packets_partition_payload (heap : Heap) (maxPacketSize : Nat) :
    ((∃ wires, heap.packetBytes maxPacketSize = .ok wires) ↔
      ∃ pointers payload, heap.layout = .ok (pointers, payload) ∧ pointers.length ≤ 65531 ∧
        heap.count < 2 ^ heap.flavour.addressBits ∧
        payload.length < 2 ^ heap.flavour.addressBits ∧
        40 + 8 * pointers.length + (if payload = [] then 0 else 1) ≤ maxPacketSize) ∧
    ∀ packetizer, heap.packetizer maxPacketSize = .ok packetizer →
      ∃ pointers payload packets,
        heap.layout = .ok (pointers, payload) ∧
        heap.packetBytes maxPacketSize = .ok (packets.map Packet.toBytes) ∧
        packetizer.Emits packets ∧
        packets.length = packetizer.packetCount ∧ 1 ≤ packetizer.packetCount ∧
        heap.Partition pointers payload maxPacketSize packets ∧
        (maxPacketSize < wordLimit → ∀ packet ∈ packets,
          packet.payloadOffset + packetizer.sliceSize < wordLimit) ∧
        (heap.AvoidsPacketItems → ∀ packet ∈ packets,
          Packet.parse packet.toBytes = .ok (packet, packet.toBytes.length)) := by
  constructor
  · simp only [← cuttable_iff, packetBytes, packets, Except.map_eq_ok_iff, packetizer_eq_ok_iff]
    constructor
    · rintro ⟨_, _, ⟨_, ⟨pointers, payload, cuttable, _⟩, _⟩, _⟩
      exact ⟨pointers, payload, cuttable⟩
    · rintro ⟨pointers, payload, cuttable⟩
      exact ⟨_, _, ⟨_, ⟨pointers, payload, cuttable, rfl⟩, rfl⟩, rfl⟩
  · intro packetizer began
    obtain ⟨pointers, payload, cuttable, rfl⟩ := packetizer_eq_ok_iff.1 began
    have cut : heap.packets maxPacketSize =
        .ok (heap.uncut pointers payload maxPacketSize).packets := by
      rw [packets, began]
      rfl
    have positive : 0 < (heap.uncut pointers payload maxPacketSize).sliceSize :=
      Nat.lt_of_lt_of_le Nat.one_pos (Nat.le_max_left _ _)
    refine ⟨pointers, payload, _, cuttable.layout, ?_,
      (heap.behind_uncut pointers payload maxPacketSize).emits_packets positive,
      cuttable.cutInto.length_packets, Nat.le_max_left _ _, cuttable.partition, cuttable.stop_lt, ?_⟩
    · rw [packetBytes, cut]
      rfl
    · intro avoids packet member
      rw [packet.length_toBytes]
      exact Cuts.parse ⟨maxPacketSize, _, cut, member⟩ avoids

end Heap
end Spead
