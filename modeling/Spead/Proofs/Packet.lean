import Spead.Proofs.Packet.Frame

/-!
Packets read back from their bytes.

A packet whose fields fit is found at the front of any bytes that begin with it.
-/

namespace Spead
namespace Packet

/-- A packet of a flavour that can be put on the wire and told apart there. -/
structure Sendable (flavour : Flavour) (packet : Packet) : Prop where
  addressBits : packet.addressBits = flavour.addressBits
  payloadLength : packet.payloadLength = packet.payload.length
  inside : packet.payloadOffset + packet.payloadLength ≤ packet.heapLength
  heapCount : packet.heapCount ≤ flavour.maxAddress
  heapLength : packet.heapLength ≤ flavour.maxAddress
  pointerCount : PacketItem.all.length + packet.pointers.length ≤ maxPointers
  foreign : ∀ word ∈ packet.pointers, isPacketItemId (flavour.decodePointer word).id = false

def ownPointers (packet : Packet) : List Pointer :=
  PacketItem.all.map fun item => ⟨item.id, true, packet.itemValue item⟩

def words (packet : Packet) : List UInt64 :=
  packet.ownPointers.map (Pointer.toWord packet.addressBits) ++ packet.pointers

theorem length_words (packet : Packet) :
    packet.words.length = PacketItem.all.length + packet.pointers.length := by
  simp [words, ownPointers]

/-! ## The pointer table -/

theorem isPacketItemId_id (item : PacketItem) : isPacketItemId item.id = true := by
  cases item <;> rfl

theorem itemId_le (item : PacketItem) : item.id ≤ 4 := by
  cases item <;> decide

/-- What is known of a packet that is read from a table and from what stands behind it. -/
structure ReadFrom
    (flavour : Flavour) (words : List UInt64) (behind : Bytes) (packet : Packet) : Prop where
  immediate : ∀ pointer ∈ words.map flavour.decodePointer,
    isPacketItemId pointer.id = true → pointer.immediate = true
  found : ∀ item, findItem (words.map flavour.decodePointer) item = .ok (packet.itemValue item)
  inside : packet.payloadOffset + packet.payloadLength ≤ packet.heapLength
  addressBits : packet.addressBits = flavour.addressBits
  pointers : packet.pointers =
    words.filter fun word => !isPacketItemId (flavour.decodePointer word).id
  payloadLength : packet.payloadLength = packet.payload.length
  payload : packet.payload <+: behind

theorem ofTable_eq_ok_iff
    {flavour : Flavour} {words : List UInt64} {behind : Bytes} {packet : Packet} :
    ofTable flavour words behind = .ok packet ↔ ReadFrom flavour words behind packet := by
  have immediate_iff :
      ((words.map flavour.decodePointer).find? fun pointer =>
        isPacketItemId pointer.id && !pointer.immediate) = none ↔
      ∀ pointer ∈ words.map flavour.decodePointer,
        isPacketItemId pointer.id = true → pointer.immediate = true := by
    rw [List.find?_eq_none]
    simp
  constructor
  · intro read
    unfold ofTable at read
    cases misplaced : (words.map flavour.decodePointer).find? fun pointer =>
        isPacketItemId pointer.id && !pointer.immediate with
    | some pointer =>
        simp only [misplaced] at read
        cases read
    | none =>
        simp only [misplaced] at read
        obtain ⟨heapCount, foundCount, read⟩ := Except.bind_eq_ok_iff.1 read
        obtain ⟨heapLength, foundHeap, read⟩ := Except.bind_eq_ok_iff.1 read
        obtain ⟨payloadOffset, foundOffset, read⟩ := Except.bind_eq_ok_iff.1 read
        obtain ⟨payloadLength, foundLength, read⟩ := Except.bind_eq_ok_iff.1 read
        obtain ⟨long, read⟩ := Except.guard_eq_ok_iff.1 read
        obtain ⟨inside, read⟩ := Except.guard_eq_ok_iff.1 read
        cases read
        have length : (behind.take payloadLength).length = payloadLength :=
          List.length_take_of_le (Nat.le_of_not_lt long)
        constructor
        case immediate => exact immediate_iff.1 misplaced
        case found =>
          intro item
          cases item with
          | heapCount => exact foundCount
          | heapLength => exact foundHeap
          | payloadOffset => exact foundOffset
          | payloadLength => rw [itemValue, length, foundLength]
        case inside => exact Nat.le_of_not_lt inside
        case addressBits => rfl
        case pointers => rfl
        case payloadLength => exact length.symm
        case payload => exact List.take_prefix _ _
  · intro read
    have found := read.found
    have long : ¬ behind.length < packet.payload.length := Nat.not_lt.2 read.payload.length_le
    have inside := read.inside
    rw [read.payloadLength] at inside
    have slice : behind.take packet.payload.length = packet.payload :=
      (List.prefix_iff_eq_take.1 read.payload).symm
    unfold ofTable
    simp only [immediate_iff.2 read.immediate, found, itemValue, bind, Except.bind, if_neg long,
      if_neg (Nat.not_lt.2 inside), slice, pure, Except.pure, ← read.pointers]
    rw [← read.addressBits, ← read.payloadLength]

section Sendable

variable {flavour : Flavour} {packet : Packet}

theorem Sendable.itemValue_le (sendable : packet.Sendable flavour) (item : PacketItem) :
    packet.itemValue item ≤ flavour.maxAddress := by
  have inside := sendable.inside
  have length := sendable.payloadLength
  have bound := sendable.heapLength
  cases item with
  | heapCount => exact sendable.heapCount
  | heapLength => exact bound
  | payloadOffset =>
      simp only [itemValue]
      omega
  | payloadLength =>
      simp only [itemValue]
      omega

theorem itemId_lt (flavour : Flavour) (item : PacketItem) :
    item.id < 2 ^ (63 - flavour.addressBits) := by
  apply flavour.maxId_lt (flavour.le_maxId _)
  have := itemId_le item
  omega

theorem Sendable.decode_words (sendable : packet.Sendable flavour) :
    packet.words.map flavour.decodePointer =
      packet.ownPointers ++ packet.pointers.map flavour.decodePointer := by
  rw [words, List.map_append, List.map_map]
  congr 1
  simp only [ownPointers, List.map_map]
  apply List.map_congr_left
  intro item _
  simp only [Function.comp_apply, Flavour.decodePointer, sendable.addressBits]
  exact Pointer.ofWord_toWord flavour.addressBits_lt
    ⟨itemId_lt flavour item, flavour.maxAddress_lt (sendable.itemValue_le item)⟩

/-- The items of a packet are found in front of pointers that are none. -/
theorem findItem_append
    (value : PacketItem → Nat) {foreign : List Pointer}
    (distinct : ∀ pointer ∈ foreign, isPacketItemId pointer.id = false) (item : PacketItem) :
    findItem ((PacketItem.all.map fun item => ⟨item.id, true, value item⟩) ++ foreign) item =
      .ok (value item) := by
  have none : (foreign.filter fun pointer => pointer.id = item.id) = [] := by
    rw [List.filter_eq_nil_iff]
    intro pointer member same
    have absent := distinct pointer member
    rw [of_decide_eq_true same, isPacketItemId_id] at absent
    cases absent
  have own :
      ((PacketItem.all.map fun item => (⟨item.id, true, value item⟩ : Pointer)).filter
        fun pointer => pointer.id = item.id) = [⟨item.id, true, value item⟩] := by
    cases item <;> rfl
  rw [findItem, List.filter_append, none, own]
  rfl

theorem Sendable.not_isPacketItemId (sendable : packet.Sendable flavour) :
    ∀ pointer ∈ packet.pointers.map flavour.decodePointer,
      isPacketItemId pointer.id = false := by
  intro pointer member
  obtain ⟨word, inTable, rfl⟩ := List.mem_map.1 member
  exact sendable.foreign word inTable

theorem Sendable.filter_words (sendable : packet.Sendable flavour) :
    (packet.words.filter fun word => !isPacketItemId (flavour.decodePointer word).id) =
      packet.pointers := by
  have own :
      ((packet.ownPointers.map (Pointer.toWord packet.addressBits)).filter fun word =>
        !isPacketItemId (flavour.decodePointer word).id) = [] := by
    rw [List.filter_eq_nil_iff]
    intro word member
    simp only [ownPointers, List.map_map, List.mem_map, Function.comp_apply] at member
    obtain ⟨item, _, rfl⟩ := member
    have decoded :
        flavour.decodePointer
            (Pointer.toWord packet.addressBits ⟨item.id, true, packet.itemValue item⟩) =
          ⟨item.id, true, packet.itemValue item⟩ := by
      rw [Flavour.decodePointer, sendable.addressBits]
      exact Pointer.ofWord_toWord flavour.addressBits_lt
        ⟨itemId_lt flavour item, flavour.maxAddress_lt (sendable.itemValue_le item)⟩
    rw [decoded, isPacketItemId_id]
    decide
  rw [words, List.filter_append, own, List.nil_append, List.filter_eq_self]
  intro word member
  rw [sendable.foreign word member]
  rfl

theorem Sendable.readFrom (sendable : packet.Sendable flavour) (behind : Bytes) :
    ReadFrom flavour packet.words (packet.payload ++ behind) packet where
  immediate := by
    intro pointer member own
    rw [sendable.decode_words, List.mem_append] at member
    rcases member with ofPacket | foreign
    · obtain ⟨item, _, rfl⟩ := List.mem_map.1 ofPacket
      rfl
    · rw [sendable.not_isPacketItemId pointer foreign] at own
      cases own
  found := by
    intro item
    rw [sendable.decode_words]
    exact findItem_append packet.itemValue sendable.not_isPacketItemId item
  inside := sendable.inside
  addressBits := sendable.addressBits
  pointers := sendable.filter_words.symm
  payloadLength := sendable.payloadLength
  payload := List.prefix_append _ _

end Sendable

/-! ## Whole packets -/

/-- The header and the table of a packet as it is written. -/
def Sendable.frame
    {flavour : Flavour} {packet : Packet} (sendable : packet.Sendable flavour) : Frame where
  flavour := flavour
  fifth := 0
  sixth := 0
  words := packet.words
  counted := by
    rw [length_words]
    exact sendable.pointerCount

theorem Sendable.toBytes_eq
    {flavour : Flavour} {packet : Packet} (sendable : packet.Sendable flavour) :
    packet.toBytes = sendable.frame.bytes packet.payload := by
  rw [Frame.bytes, Sendable.frame, length_words, ← List.flatMap_def, ← sendable.addressBits]
  rfl

theorem length_toBytes (packet : Packet) : packet.toBytes.length = packet.size := by
  have table :
      ((PacketItem.all.map fun item =>
        Pointer.toWord packet.addressBits ⟨item.id, true, packet.itemValue item⟩) ++
          packet.pointers).flatMap wordBytes =
        (packet.words.map wordBytes).flatten := by
    rw [← List.flatMap_def, words, ownPointers, List.map_map]
    rfl
  rw [toBytes, table]
  simp only [List.length_append, length_flatten_wordBytes, length_words, Bytes.length_bigEndian,
    List.length_cons, List.length_nil, size, sizeFor, headerSize]
  ring

/-- A packet is read back from its bytes, whatever follows them. -/
theorem parse_toBytes_append
    {flavour : Flavour} {packet : Packet} (sendable : packet.Sendable flavour)
    (behind : Bytes) :
    parse (packet.toBytes ++ behind) = .ok (packet, packet.size) := by
  have used : sendable.frame.size + packet.payloadLength = packet.size := by
    rw [← length_toBytes, sendable.toBytes_eq, Frame.length_bytes,
      sendable.payloadLength]
  have read : ofTable sendable.frame.flavour sendable.frame.words (packet.payload ++ behind) =
      .ok packet :=
    ofTable_eq_ok_iff.2 (sendable.readFrom behind)
  rw [sendable.toBytes_eq, ← Frame.bytes_append, Frame.parse_bytes, read, Except.map, used]

/-! ## Writing -/

theorem checkFits_eq_ok_iff
    {flavour : Flavour} {item : PacketItem} {value : Nat} :
    checkFits flavour item value = .ok () ↔ value ≤ flavour.maxAddress := by
  unfold checkFits
  by_cases long : flavour.maxAddress < value
  · simp [if_pos long, Nat.not_le.2 long]
  · simp [if_neg long, Nat.not_lt.1 long]

theorem checkPointerCount_eq_ok_iff {count : Nat} :
    checkPointerCount count = .ok () ↔ PacketItem.all.length + count ≤ maxPointers := by
  unfold checkPointerCount
  by_cases many : maxPointers < PacketItem.all.length + count
  · simp [if_pos many, Nat.not_le.2 many]
  · simp [if_neg many, Nat.not_lt.1 many]

/-- Everything that is looked at before a packet is written fits. -/
structure Fit (flavour : Flavour) (packet : Packet) : Prop where
  payloadLength : packet.payloadLength = packet.payload.length
  pointerCount : PacketItem.all.length + packet.pointers.length ≤ maxPointers
  heapCount : packet.heapCount ≤ flavour.maxAddress
  heapLength : packet.heapLength ≤ flavour.maxAddress
  payloadOffset : packet.payloadOffset ≤ flavour.maxAddress

theorem serialize_eq_ok_iff
    {flavour : Flavour} {packet : Packet} {bytes : Bytes}
    (width : packet.addressBits = flavour.addressBits) :
    packet.serialize = .ok bytes ↔ bytes = packet.toBytes ∧ packet.Fit flavour := by
  have ofWidth : Flavour.of packet.addressBits .none = .ok flavour.plain := by
    rw [width, flavour.of_addressBits_none]
  unfold serialize
  constructor
  · intro written
    obtain ⟨plain, found, rest⟩ := Except.bind_eq_ok_iff.1 written
    rw [liftM_eq_ok_iff, ofWidth] at found
    cases found
    obtain ⟨length, rest⟩ := Except.guard_eq_ok_iff.1 rest
    simp only [Except.bind_eq_ok_iff, liftM_eq_ok_iff] at rest
    obtain ⟨_, pointerCount, _, heapCount, _, heapLength, _, payloadOffset, final⟩ := rest
    cases final
    refine ⟨rfl, not_not.1 length, ?_, ?_, ?_, ?_⟩
    · exact checkPointerCount_eq_ok_iff.1 pointerCount
    · exact checkFits_eq_ok_iff.1 heapCount
    · exact checkFits_eq_ok_iff.1 heapLength
    · exact checkFits_eq_ok_iff.1 payloadOffset
  · rintro ⟨rfl, fit⟩
    rw [Except.bind_eq_ok_iff]
    refine ⟨flavour.plain, liftM_eq_ok_iff.2 ofWidth, Except.guard_eq_ok_iff.2 ?_⟩
    refine ⟨not_not.2 fit.payloadLength, ?_⟩
    simp only [Except.bind_eq_ok_iff, liftM_eq_ok_iff]
    refine ⟨(), checkPointerCount_eq_ok_iff.2 fit.pointerCount, (),
      checkFits_eq_ok_iff.2 fit.heapCount, (), checkFits_eq_ok_iff.2 fit.heapLength, (),
      checkFits_eq_ok_iff.2 fit.payloadOffset, rfl⟩

theorem Sendable.serialize
    {flavour : Flavour} {packet : Packet} (sendable : packet.Sendable flavour) :
    packet.serialize = .ok packet.toBytes := by
  apply (serialize_eq_ok_iff sendable.addressBits).2
  refine ⟨rfl, sendable.payloadLength, sendable.pointerCount, sendable.heapCount,
    sendable.heapLength, ?_⟩
  exact sendable.itemValue_le .payloadOffset

end Packet
end Spead
