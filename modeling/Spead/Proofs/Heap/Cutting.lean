import Spead.Proofs.Coverage
import Spead.Proofs.Except
import Spead.Proofs.Heap.Layout
import Spead.Proofs.Heap.Packetizer
import Spead.Proofs.Packet
import Spead.Proofs.Reassembler.Block

/-!
Heaps cut into packets.

Whatever the size of the packets, each of them carries the pointers of the heap and a piece of its
payload, and is read back from its bytes. The packets of one cut cover the payload.
-/

namespace Spead

namespace Heap

/-- A packet is one of those into which the heap is cut for some size. -/
def Cuts (heap : Heap) (packet : Packet) : Prop :=
  ∃ maxPacketSize packets, heap.packets maxPacketSize = .ok packets ∧ packet ∈ packets

/-- What a packet of a heap says, and what it brings. -/
structure Carries
    (heap : Heap) (pointers : List UInt64) (payload : Bytes) (packet : Packet) : Prop where
  heapCount : packet.heapCount = heap.count
  heapLength : packet.heapLength = payload.length
  addressBits : packet.addressBits = heap.flavour.addressBits
  pointers : packet.pointers = pointers
  payloadLength : packet.payloadLength = packet.payload.length
  inside : packet.payloadOffset + packet.payloadLength ≤ payload.length
  payload : packet.payload = (payload.drop packet.payloadOffset).take packet.payloadLength

/-! ## Packets of one cut -/

def slicePacket
    (heap : Heap) (pointers : List UInt64) (payload : Bytes) (sliceSize place : Nat)
    (slice : Bytes) : Packet where
  heapCount := heap.count
  heapLength := payload.length
  payloadOffset := place * sliceSize
  payloadLength := slice.length
  addressBits := heap.flavour.addressBits
  pointers := pointers
  payload := slice

/-- A heap that is cut has a layout, all numbers of which fit, and its packets carry the slices of
the payload in their order. -/
structure CutInto
    (heap : Heap) (pointers : List UInt64) (payload : Bytes) (sliceSize : Nat)
    (packets : List Packet) : Prop where
  layout : heap.layout = .ok (pointers, payload)
  pointerCount : PacketItem.all.length + pointers.length ≤ Packet.maxPointers
  heapCount : heap.count ≤ heap.flavour.maxAddress
  heapLength : payload.length ≤ heap.flavour.maxAddress
  sliceSize_pos : 0 < sliceSize
  packets :
    packets =
      (Bytes.chunks sliceSize (packetCount sliceSize payload.length) payload).zipIdx.map
        fun (slice, place) => heap.slicePacket pointers payload sliceSize place slice

/-- What has to hold of a heap with a layout before it is cut into packets of some size. -/
structure Cuttable
    (heap : Heap) (pointers : List UInt64) (payload : Bytes) (maxPacketSize : Nat) : Prop where
  layout : heap.layout = .ok (pointers, payload)
  pointerCount : PacketItem.all.length + pointers.length ≤ Packet.maxPointers
  heapCount : heap.count ≤ heap.flavour.maxAddress
  heapLength : payload.length ≤ heap.flavour.maxAddress
  room : Packet.sizeFor pointers.length 0 + (if payload.isEmpty then 0 else 1) ≤ maxPacketSize

def uncut
    (heap : Heap) (pointers : List UInt64) (payload : Bytes) (maxPacketSize : Nat) :
    Packetizer where
  heapCount := heap.count
  addressBits := heap.flavour.addressBits
  pointers := pointers
  heapLength := payload.length
  sliceSize := max 1 (maxPacketSize - Packet.sizeFor pointers.length 0)
  rest := payload

theorem behind_uncut
    (heap : Heap) (pointers : List UInt64) (payload : Bytes) (maxPacketSize : Nat) :
    (heap.uncut pointers payload maxPacketSize).Behind 0 :=
  ⟨by simp [uncut], by simp [uncut], rfl⟩

theorem packetizer_eq_ok_iff
    {heap : Heap} {maxPacketSize : Nat} {packetizer : Packetizer} :
    heap.packetizer maxPacketSize = .ok packetizer ↔
      ∃ pointers payload, heap.Cuttable pointers payload maxPacketSize ∧
        packetizer = heap.uncut pointers payload maxPacketSize := by
  unfold Heap.packetizer
  simp only [Except.bind_eq_ok_iff]
  constructor
  · rintro ⟨⟨pointers, payload⟩, layout, _, pointerCount, _, heapCount, _, heapLength, rest⟩
    obtain ⟨room, final⟩ := Except.guard_eq_ok_iff.1 rest
    cases final
    refine ⟨pointers, payload, ?_, rfl⟩
    constructor
    case layout => exact layout
    case pointerCount => exact Packet.checkPointerCount_eq_ok_iff.1 pointerCount
    case heapCount => exact Packet.checkFits_eq_ok_iff.1 heapCount
    case heapLength => exact Packet.checkFits_eq_ok_iff.1 heapLength
    case room => exact Nat.le_of_not_lt room
  · rintro ⟨pointers, payload, cuttable, rfl⟩
    refine ⟨(pointers, payload), cuttable.layout,
      (), Packet.checkPointerCount_eq_ok_iff.2 cuttable.pointerCount,
      (), Packet.checkFits_eq_ok_iff.2 cuttable.heapCount,
      (), Packet.checkFits_eq_ok_iff.2 cuttable.heapLength, ?_⟩
    exact Except.guard_eq_ok_iff.2 ⟨Nat.not_lt.2 cuttable.room, rfl⟩

theorem Cuttable.cutInto
    {heap : Heap} {pointers : List UInt64} {payload : Bytes} {maxPacketSize : Nat}
    (cuttable : heap.Cuttable pointers payload maxPacketSize) :
    heap.CutInto pointers payload (max 1 (maxPacketSize - Packet.sizeFor pointers.length 0))
      (heap.uncut pointers payload maxPacketSize).packets := by
  have positive : 0 < (heap.uncut pointers payload maxPacketSize).sliceSize :=
    Nat.lt_of_lt_of_le Nat.one_pos (Nat.le_max_left _ _)
  constructor
  case layout => exact cuttable.layout
  case pointerCount => exact cuttable.pointerCount
  case heapCount => exact cuttable.heapCount
  case heapLength => exact cuttable.heapLength
  case sliceSize_pos => exact positive
  case packets => exact (heap.behind_uncut pointers payload maxPacketSize).packets_eq positive

theorem cutInto_of_packets
    {heap : Heap} {maxPacketSize : Nat} {packets : List Packet}
    (cut : heap.packets maxPacketSize = .ok packets) :
    ∃ pointers payload sliceSize, heap.CutInto pointers payload sliceSize packets := by
  obtain ⟨packetizer, began, rfl⟩ := Except.map_eq_ok_iff.1 cut
  obtain ⟨pointers, payload, cuttable, rfl⟩ := packetizer_eq_ok_iff.1 began
  exact ⟨pointers, payload, _, cuttable.cutInto⟩

section CutInto

variable {heap : Heap} {pointers : List UInt64} {payload : Bytes} {sliceSize : Nat}
  {packets : List Packet}

/-- The packets of a cut are its slices, one for every place. -/
theorem CutInto.mem_packets_iff
    (cut : heap.CutInto pointers payload sliceSize packets) (packet : Packet) :
    packet ∈ packets ↔
      ∃ place < packetCount sliceSize payload.length,
        packet = heap.slicePacket pointers payload sliceSize place
          ((payload.drop (place * sliceSize)).take sliceSize) := by
  rw [cut.packets, List.mem_map]
  constructor
  · rintro ⟨⟨slice, place⟩, member, rfl⟩
    rw [List.mem_zipIdx_iff_getElem?] at member
    have inside : place < packetCount sliceSize payload.length := by
      have bound := (List.getElem?_eq_some_iff.1 member).1
      rwa [Bytes.length_chunks] at bound
    rw [Bytes.getElem?_chunks payload inside, Option.some_inj] at member
    exact ⟨place, inside, by rw [member]⟩
  · rintro ⟨place, inside, rfl⟩
    refine ⟨(_, place), ?_, rfl⟩
    rw [List.mem_zipIdx_iff_getElem?]
    exact Bytes.getElem?_chunks payload inside

theorem CutInto.start_le
    (cut : heap.CutInto pointers payload sliceSize packets) {place : Nat}
    (inside : place < packetCount sliceSize payload.length) :
    place * sliceSize ≤ payload.length := by
  have positive := cut.sliceSize_pos
  unfold packetCount at inside
  by_cases first : place = 0
  · simp [first]
  · have before : place < (payload.length + sliceSize - 1) / sliceSize := by omega
    have : (place + 1) * sliceSize ≤ payload.length + sliceSize - 1 :=
      (Nat.le_div_iff_mul_le positive).1 before
    rw [Nat.add_one_mul] at this
    omega

theorem CutInto.carries
    (cut : heap.CutInto pointers payload sliceSize packets) {packet : Packet}
    (member : packet ∈ packets) :
    heap.Carries pointers payload packet := by
  obtain ⟨place, inside, rfl⟩ := (cut.mem_packets_iff packet).1 member
  have start := cut.start_le inside
  constructor
  case heapCount => rfl
  case heapLength => rfl
  case addressBits => rfl
  case pointers => rfl
  case payloadLength => rfl
  case inside =>
    simp only [slicePacket, List.length_take, List.length_drop]
    omega
  case payload =>
    simp only [slicePacket]
    rw [List.length_take, List.take_eq_take_iff, List.length_drop]
    omega

theorem CutInto.covers
    (cut : heap.CutInto pointers payload sliceSize packets) {position : Nat}
    (inside : position < payload.length) :
    ∃ packet ∈ packets, position ∈ packet.span := by
  have positive := cut.sliceSize_pos
  have split := Nat.div_add_mod' position sliceSize
  have small := Nat.mod_lt position positive
  have place : position / sliceSize < packetCount sliceSize payload.length := by
    have next : (position / sliceSize + 1) * sliceSize ≤ payload.length + sliceSize - 1 := by
      rw [Nat.add_one_mul]
      omega
    have := (Nat.le_div_iff_mul_le positive).2 next
    unfold packetCount
    omega
  refine ⟨_, (cut.mem_packets_iff _).2 ⟨_, place, rfl⟩, ?_⟩
  rw [Span.mem_iff]
  simp only [Packet.span, slicePacket, List.length_take, List.length_drop]
  omega

/-- A heap without payload is sent in a packet too. -/
theorem CutInto.packets_ne_nil
    (cut : heap.CutInto pointers payload sliceSize packets) :
    packets ≠ [] := by
  intro none
  have first : 0 < packetCount sliceSize payload.length := by
    unfold packetCount
    omega
  have member := (cut.mem_packets_iff _).2 ⟨0, first, rfl⟩
  rw [none] at member
  cases member

end CutInto

/-! ## Packets of any cut -/

/-- What holds of every packet of a heap that has a layout. -/
theorem Cuts.carries
    {heap : Heap} {packet : Packet} (cuts : heap.Cuts packet) :
    ∃ pointers payload, heap.layout = .ok (pointers, payload) ∧
      heap.Carries pointers payload packet := by
  obtain ⟨_, packets, cut, member⟩ := cuts
  obtain ⟨pointers, payload, _, whole⟩ := cutInto_of_packets cut
  exact ⟨pointers, payload, whole.layout, whole.carries member⟩

theorem Cuts.carries_of_layout
    {heap : Heap} {packet : Packet} {pointers : List UInt64} {payload : Bytes}
    (cuts : heap.Cuts packet) (layout : heap.layout = .ok (pointers, payload)) :
    heap.Carries pointers payload packet := by
  obtain ⟨_, _, sameLayout, carries⟩ := cuts.carries
  rw [layout] at sameLayout
  cases sameLayout
  exact carries

theorem Cuts.heapCount
    {heap : Heap} {packet : Packet} (cuts : heap.Cuts packet) :
    packet.heapCount = heap.count := by
  obtain ⟨_, _, _, carries⟩ := cuts.carries
  exact carries.heapCount

/-- Among heaps with distinct numbers, the one that a packet was cut from is known by its number. -/
theorem cuts_of_heapCount
    {sent : List Heap} (distinct : (sent.map Heap.count).Nodup) {heap other : Heap}
    (member : heap ∈ sent) (otherMember : other ∈ sent) {packet : Packet}
    (cuts : other.Cuts packet) (same : packet.heapCount = heap.count) :
    heap.Cuts packet := by
  have sameCount : other.count = heap.count := by rw [← cuts.heapCount, same]
  have sameHeap : other = heap :=
    List.inj_on_of_nodup_map distinct otherMember member sameCount
  rwa [← sameHeap]

/-- Packets can be told from other bytes if no item of the heap has an id of theirs. -/
theorem Cuts.sendable
    {heap : Heap} {packet : Packet} (cuts : heap.Cuts packet) (avoids : heap.AvoidsPacketItems) :
    packet.Sendable heap.flavour := by
  obtain ⟨_, packets, cut, member⟩ := cuts
  obtain ⟨pointers, payload, _, whole⟩ := cutInto_of_packets cut
  have carries := whole.carries member
  constructor
  case addressBits => exact carries.addressBits
  case payloadLength => exact carries.payloadLength
  case inside =>
    rw [carries.heapLength]
    exact carries.inside
  case heapCount =>
    rw [carries.heapCount]
    exact whole.heapCount
  case heapLength =>
    rw [carries.heapLength]
    exact whole.heapLength
  case pointerCount =>
    rw [carries.pointers]
    exact whole.pointerCount
  case foreign =>
    rw [carries.pointers]
    exact (laidOut_of_layout whole.layout).foreign avoids

/-- A packet of a heap is read back from its bytes. -/
theorem Cuts.parse
    {heap : Heap} {packet : Packet} (cuts : heap.Cuts packet) (avoids : heap.AvoidsPacketItems) :
    Packet.parse packet.toBytes = .ok (packet, packet.size) := by
  have found := Packet.parse_toBytes_append (cuts.sendable avoids) []
  rwa [List.append_nil] at found

section Carries

variable {heap : Heap} {pointers : List UInt64} {payload : Bytes} {packet : Packet}

theorem Carries.fits (carries : heap.Carries pointers payload packet) : packet.Fits := by
  constructor
  · rw [carries.heapLength]
    exact carries.inside
  · exact carries.payloadLength.symm

theorem Carries.byteAt?
    (carries : heap.Carries pointers payload packet) {position : Nat}
    (inside : position ∈ packet.span) :
    packet.byteAt? position = payload[position]? := by
  rw [Span.mem_iff] at inside
  simp only [Packet.span] at inside
  rw [Packet.byteAt?, carries.payload, List.getElem?_take_of_lt (by omega), List.getElem?_drop]
  congr 1
  omega

end Carries

end Heap
end Spead
