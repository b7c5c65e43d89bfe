import Mathlib.Data.List.Perm.Subperm
import Spead.Proofs.Packet

/-!
Packets at the front of any bytes.

Every packet that can be told apart is read back from its bytes. Whatever bytes a packet is read
from, it depends on those alone that it takes: more bytes change nothing, and fewer are no packet.
Written again, it takes no more bytes, and the same ones if they were in canonical form.
-/

namespace Spead
namespace Packet

/-! ## Packets that have been read -/

theorem findItem_eq_ok
    {table : List Pointer} {item : PacketItem} {value : Nat}
    (found : findItem table item = .ok value) :
    ∃ pointer ∈ table, pointer.id = item.id ∧ pointer.value = value := by
  unfold findItem at found
  split at found
  · next pointer last =>
      cases found
      have member := List.mem_of_getLast? last
      rw [List.mem_filter, decide_eq_true_eq] at member
      exact ⟨pointer, member.1, member.2, rfl⟩
  · cases found

theorem findItem_le
    {flavour : Flavour} {words : List UInt64} {item : PacketItem} {value : Nat}
    (found : findItem (words.map flavour.decodePointer) item = .ok value) :
    value ≤ flavour.maxAddress := by
  obtain ⟨pointer, inTable, _, rfl⟩ := findItem_eq_ok found
  obtain ⟨word, _, rfl⟩ := List.mem_map.1 inTable
  exact Nat.le_sub_one_of_lt (Pointer.fits_ofWord flavour.addressBits_lt word).value_lt

theorem nodup_itemIds : (PacketItem.all.map PacketItem.id).Nodup := by
  decide

section ReadFrom

variable {flavour : Flavour} {words : List UInt64} {behind : Bytes} {packet : Packet}

theorem ReadFrom.exists_word
    (read : ReadFrom flavour words behind packet) (item : PacketItem) :
    ∃ word ∈ words, (flavour.decodePointer word).id = item.id ∧
      (flavour.decodePointer word).value = packet.itemValue item := by
  obtain ⟨pointer, inTable, sameId, sameValue⟩ := findItem_eq_ok (read.found item)
  obtain ⟨word, member, rfl⟩ := List.mem_map.1 inTable
  exact ⟨word, member, sameId, sameValue⟩

theorem ReadFrom.itemValue_le
    (read : ReadFrom flavour words behind packet) (item : PacketItem) :
    packet.itemValue item ≤ flavour.maxAddress :=
  findItem_le (read.found item)

/-- Each of the items about the packet takes a word at least. -/
theorem ReadFrom.length_pointers_le (read : ReadFrom flavour words behind packet) :
    PacketItem.all.length + packet.pointers.length ≤ words.length := by
  have split := List.length_eq_length_filter_add (l := words) fun word =>
    isPacketItemId (flavour.decodePointer word).id
  have own :
      PacketItem.all.map PacketItem.id ⊆
        (words.filter fun word => isPacketItemId (flavour.decodePointer word).id).map fun word =>
          (flavour.decodePointer word).id := by
    intro id member
    obtain ⟨item, _, rfl⟩ := List.mem_map.1 member
    obtain ⟨word, inTable, sameId, _⟩ := read.exists_word item
    apply List.mem_map.2
    refine ⟨word, List.mem_filter.2 ⟨inTable, ?_⟩, sameId⟩
    rw [sameId]
    exact isPacketItemId_id item
  have atLeast := (nodup_itemIds.subperm own).length_le
  rw [List.length_map, List.length_map] at atLeast
  rw [read.pointers]
  omega

theorem ReadFrom.sendable
    (read : ReadFrom flavour words behind packet) (counted : words.length ≤ maxPointers) :
    packet.Sendable flavour where
  addressBits := read.addressBits
  payloadLength := read.payloadLength
  inside := read.inside
  heapCount := read.itemValue_le .heapCount
  heapLength := read.itemValue_le .heapLength
  pointerCount := read.length_pointers_le.trans counted
  foreign := by
    intro word member
    rw [read.pointers, List.mem_filter] at member
    simpa using member.2

end ReadFrom

section Parsed

variable {bytes : Bytes} {packet : Packet} {used : Nat}

theorem exists_frame_of_parse (parsed : parse bytes = .ok (packet, used)) :
    ∃ (frame : Frame) (behind : Bytes), bytes = frame.bytes behind ∧
      ReadFrom frame.flavour frame.words behind packet ∧
      used = frame.size + packet.payload.length := by
  obtain ⟨frame, behind, rfl⟩ := Frame.exists_of_parse parsed
  rw [Frame.parse_bytes, Except.map_eq_ok_iff] at parsed
  obtain ⟨found, ofTable, same⟩ := parsed
  cases same
  have read := ofTable_eq_ok_iff.1 ofTable
  exact ⟨frame, behind, rfl, read, by rw [read.payloadLength]⟩

theorem Frame.take_bytes
    {frame : Frame} {front behind : Bytes} (isPrefix : front <+: behind) :
    (frame.bytes behind).take (frame.size + front.length) = frame.bytes front := by
  obtain ⟨rest, rfl⟩ := isPrefix
  rw [bytes_append, ← length_bytes]
  exact List.take_left

theorem le_length_of_parse (parsed : parse bytes = .ok (packet, used)) : used ≤ bytes.length := by
  obtain ⟨frame, behind, rfl, read, rfl⟩ := exists_frame_of_parse parsed
  have := read.payload.length_le
  rw [Frame.length_bytes]
  omega

/-- What stands behind a packet does not matter. -/
theorem parse_take_append (parsed : parse bytes = .ok (packet, used)) (behind : Bytes) :
    parse (bytes.take used ++ behind) = .ok (packet, used) := by
  obtain ⟨frame, rest, rfl, read, rfl⟩ := exists_frame_of_parse parsed
  have same : ReadFrom frame.flavour frame.words (packet.payload ++ behind) packet :=
    { read with payload := List.prefix_append _ _ }
  rw [Frame.take_bytes read.payload, ← Frame.bytes_append, Frame.parse_bytes,
    ofTable_eq_ok_iff.2 same, Except.map, read.payloadLength]

/-- A packet that is cut off is none. -/
theorem parse_take_of_lt
    (parsed : parse bytes = .ok (packet, used)) {length : Nat} (short : length < used) :
    ∃ cause, parse (bytes.take length) = .error cause := by
  cases cutOff : parse (bytes.take length) with
  | error cause => exact ⟨cause, rfl⟩
  | ok found =>
      obtain ⟨other, taken⟩ := found
      have fits := le_length_of_parse cutOff
      rw [List.length_take] at fits
      -- What is read from the shorter bytes would be read from the longer ones too.
      have again := parse_take_append cutOff (bytes.drop taken)
      rw [List.take_take, Nat.min_eq_left (by omega), List.take_append_drop, parsed] at again
      cases again
      omega

end Parsed

/-! ## Packets as they come out of bytes -/

/-- The widths and lengths of a packet hold together. -/
structure WellFormed (packet : Packet) : Prop where
  wide : 8 ≤ packet.addressBits
  narrow : packet.addressBits ≤ 56
  bytes : packet.addressBits % 8 = 0
  payloadLength : packet.payload.length = packet.payloadLength
  inside : packet.payloadOffset + packet.payloadLength ≤ packet.heapLength
  heapLength_lt : packet.heapLength < 2 ^ packet.addressBits

theorem wellFormed_of_parse
    {bytes : Bytes} {packet : Packet} {used : Nat} (parsed : parse bytes = .ok (packet, used)) :
    packet.WellFormed := by
  obtain ⟨frame, behind, _, read, _⟩ := exists_frame_of_parse parsed
  have positive := frame.flavour.addressBits_pos
  have bounded := frame.flavour.addressBits_lt
  have whole := frame.flavour.addressBits_bytes
  constructor
  case wide =>
    rw [read.addressBits]
    omega
  case narrow =>
    rw [read.addressBits]
    omega
  case bytes => rw [read.addressBits, whole]
  case payloadLength => exact read.payloadLength.symm
  case inside => exact read.inside
  case heapLength_lt =>
    rw [read.addressBits]
    exact frame.flavour.maxAddress_lt (read.itemValue_le .heapLength)

theorem WellFormed.heapLength_lt_wordLimit {packet : Packet} (wellFormed : packet.WellFormed) :
    packet.heapLength < wordLimit :=
  wellFormed.heapLength_lt.trans
    (Nat.pow_lt_pow_right (by decide) (by have := wellFormed.narrow; omega))

/-! ## Canonical form -/

def tableIds (bytes : Bytes) : List Nat :=
  let addressBits := (bytes.getD 3 0).toNat * 8
  let count := Bytes.toNat ((bytes.drop 6).take 2)
  (Bytes.chunks pointerSize count (bytes.drop headerSize)).map fun chunk =>
    (Pointer.ofWord addressBits (UInt64.ofNat (Bytes.toNat chunk))).id

/-- The header has zeros where it is not looked at. The items about the packet come first in the
table, once each and in their order. -/
structure Canonical (bytes : Bytes) : Prop where
  fifth : bytes[4]? = some 0
  sixth : bytes[5]? = some 0
  items : ∃ foreign, tableIds bytes = PacketItem.all.map PacketItem.id ++ foreign ∧
    ∀ id ∈ foreign, isPacketItemId id = false

namespace Frame

def ids (frame : Frame) : List Nat :=
  frame.words.map fun word => (frame.flavour.decodePointer word).id

theorem tableIds_bytes (frame : Frame) (behind : Bytes) :
    tableIds (frame.bytes behind) = frame.ids := by
  have narrow := frame.flavour.addressBits_lt
  have width :
      (UInt8.ofNat (frame.flavour.addressBits / 8)).toNat * 8 = frame.flavour.addressBits := by
    have := frame.flavour.addressBits_bytes
    rw [toNat_ofNat_of_le (by omega)]
    omega
  have words := congrArg (List.map fun word => (frame.flavour.decodePointer word).id)
    (words_of_chunks frame.words behind)
  rw [List.map_map] at words
  simp only [tableIds, Frame.bytes, headerSize, List.getD_cons_succ, List.getD_cons_zero,
    List.drop_succ_cons, List.drop_zero, List.take_succ_cons, List.take_zero, width,
    frame.toNat_count]
  exact words

theorem canonical_bytes_iff (frame : Frame) (behind : Bytes) :
    Canonical (frame.bytes behind) ↔ frame.fifth = 0 ∧ frame.sixth = 0 ∧
      ∃ foreign, frame.ids = PacketItem.all.map PacketItem.id ++ foreign ∧
        ∀ id ∈ foreign, isPacketItemId id = false := by
  constructor
  · rintro ⟨fifth, sixth, items⟩
    rw [tableIds_bytes] at items
    exact ⟨Option.some.inj fifth, Option.some.inj sixth, items⟩
  · rintro ⟨fifth, sixth, items⟩
    refine ⟨congrArg some fifth, congrArg some sixth, ?_⟩
    rwa [tableIds_bytes]

end Frame

theorem Sendable.canonical_toBytes
    {flavour : Flavour} {packet : Packet} (sendable : packet.Sendable flavour) :
    Canonical packet.toBytes := by
  rw [sendable.toBytes_eq, Frame.canonical_bytes_iff]
  refine ⟨rfl, rfl, packet.pointers.map fun word => (flavour.decodePointer word).id, ?_, ?_⟩
  · have decoded := congrArg (List.map Pointer.id) sendable.decode_words
    rw [List.map_map, List.map_append, List.map_map] at decoded
    exact decoded
  · intro id member
    obtain ⟨word, inTable, rfl⟩ := List.mem_map.1 member
    exact sendable.foreign word inTable

def valueOfEach (heapCount heapLength payloadOffset payloadLength : Nat) : PacketItem → Nat
  | .heapCount => heapCount
  | .heapLength => heapLength
  | .payloadOffset => payloadOffset
  | .payloadLength => payloadLength

/-- Pointers with the ids of the items about a packet, if they hold their values themselves. -/
theorem exists_values
    {table : List Pointer} (ids : table.map Pointer.id = PacketItem.all.map PacketItem.id)
    (immediate : ∀ pointer ∈ table, isPacketItemId pointer.id = true → pointer.immediate = true) :
    ∃ value : PacketItem → Nat, table = PacketItem.all.map fun item => ⟨item.id, true, value item⟩ := by
  have length : table.length = 4 := by
    have := congrArg List.length ids
    rwa [List.length_map, List.length_map] at this
  match table, length with
  | [first, second, third, fourth], _ =>
      have isImmediate : ∀ pointer ∈ [first, second, third, fourth], pointer.immediate = true := by
        intro pointer member
        apply immediate pointer member
        obtain ⟨item, _, same⟩ := List.mem_map.1 (ids ▸ List.mem_map_of_mem (f := Pointer.id) member)
        rw [← same]
        exact isPacketItemId_id item
      refine ⟨valueOfEach first.value second.value third.value fourth.value, ?_⟩
      simp only [valueOfEach, PacketItem.all, List.map_cons, List.map_nil, List.cons.injEq, and_true,
        List.forall_mem_cons, List.not_mem_nil, false_imp_iff, implies_true] at ids isImmediate ⊢
      obtain ⟨firstId, secondId, thirdId, fourthId⟩ := ids
      obtain ⟨firstFlag, secondFlag, thirdFlag, fourthFlag⟩ := isImmediate
      rw [← firstId, ← secondId, ← thirdId, ← fourthId]
      refine ⟨?_, ?_, ?_, ?_⟩
      · rw [← firstFlag]
      · rw [← secondFlag]
      · rw [← thirdFlag]
      · rw [← fourthFlag]

/-- The table of a packet in canonical form is the one that the packet is written with. -/
theorem ReadFrom.words_eq
    {flavour : Flavour} {words : List UInt64} {behind : Bytes} {packet : Packet}
    (read : ReadFrom flavour words behind packet) {foreign : List Nat}
    (ids : (words.map fun word => (flavour.decodePointer word).id) =
      PacketItem.all.map PacketItem.id ++ foreign)
    (distinct : ∀ id ∈ foreign, isPacketItemId id = false) :
    words = packet.words := by
  obtain ⟨front, rest, rfl, frontIds, restIds⟩ := List.map_eq_append_iff.1 ids
  have others : ∀ pointer ∈ rest.map flavour.decodePointer, isPacketItemId pointer.id = false := by
    intro pointer member
    obtain ⟨word, inTable, rfl⟩ := List.mem_map.1 member
    apply distinct
    rw [← restIds]
    exact List.mem_map_of_mem inTable
  have immediate := read.immediate
  rw [List.map_append] at immediate
  have tableIds :
      (front.map flavour.decodePointer).map Pointer.id = PacketItem.all.map PacketItem.id := by
    rw [List.map_map, ← frontIds]
    rfl
  obtain ⟨value, own⟩ := exists_values tableIds fun pointer member =>
    immediate pointer (List.mem_append_left _ member)
  have sameValue : value = packet.itemValue := by
    funext item
    have found := read.found item
    rw [List.map_append, own, findItem_append value others item] at found
    exact Except.ok.inj found
  have ownWords : front = packet.ownPointers.map (Pointer.toWord packet.addressBits) := by
    rw [ownPointers, ← sameValue, ← own, List.map_map, read.addressBits]
    symm
    apply List.map_id''
    intro word
    exact Pointer.toWord_ofWord flavour.addressBits_lt word
  have pointers : packet.pointers = rest := by
    have noneOfFront :
        (front.filter fun word => !isPacketItemId (flavour.decodePointer word).id) = [] := by
      rw [List.filter_eq_nil_iff]
      intro word member
      have ofItems := List.mem_map_of_mem (f := fun word => (flavour.decodePointer word).id) member
      rw [frontIds] at ofItems
      obtain ⟨item, _, same⟩ := List.mem_map.1 ofItems
      rw [← same, isPacketItemId_id]
      decide
    rw [read.pointers, List.filter_append, noneOfFront, List.nil_append, List.filter_eq_self]
    intro word member
    rw [others _ (List.mem_map_of_mem member)]
    rfl
  rw [words, ← ownWords, pointers]

/-- A packet is written with the bytes that it was read from exactly if these were canonical. -/
theorem toBytes_eq_take_iff
    {bytes : Bytes} {packet : Packet} {used : Nat} (parsed : parse bytes = .ok (packet, used)) :
    packet.toBytes = bytes.take used ↔ Canonical bytes := by
  obtain ⟨frame, behind, rfl, read, rfl⟩ := exists_frame_of_parse parsed
  have sendable := read.sendable frame.counted
  rw [Frame.take_bytes read.payload]
  constructor
  · intro same
    have canonical := sendable.canonical_toBytes
    rw [same, Frame.canonical_bytes_iff] at canonical
    rwa [Frame.canonical_bytes_iff]
  · intro canonical
    obtain ⟨fifth, sixth, foreign, ids, distinct⟩ := (frame.canonical_bytes_iff behind).1 canonical
    have words := read.words_eq ids distinct
    rw [sendable.toBytes_eq]
    simp only [Frame.bytes, Sendable.frame, fifth, sixth, words]

/-! ## Both directions -/

/-- A packet whose numbers fit is written with as many bytes as its size says, and read back from
them, whatever follows. A packet that is read from any bytes can be written again, and depends on
the bytes that it takes and on nothing else; no part of them is a packet. -/
theorem written_and_read_apart :
    (∀ (flavour : Flavour) (packet : Packet), packet.Sendable flavour →
      ∃ bytes, packet.serialize = .ok bytes ∧ bytes.length = packet.size ∧
        ∀ behind, parse (bytes ++ behind) = .ok (packet, packet.size)) ∧
    ∀ (bytes : Bytes) (packet : Packet) (used : Nat), parse bytes = .ok (packet, used) →
      used ≤ bytes.length ∧
      (∃ again, packet.serialize = .ok again ∧ again.length ≤ used ∧
        parse again = .ok (packet, again.length) ∧
        (again = bytes.take used ↔ Canonical bytes)) ∧
      (∀ behind, parse (bytes.take used ++ behind) = .ok (packet, used)) ∧
      ∀ length < used, ∃ cause, parse (bytes.take length) = .error cause := by
  constructor
  · intro flavour packet sendable
    exact ⟨packet.toBytes, sendable.serialize, packet.length_toBytes,
      parse_toBytes_append sendable⟩
  · intro bytes packet used parsed
    obtain ⟨frame, behind, _, read, taken⟩ := exists_frame_of_parse parsed
    have sendable := read.sendable frame.counted
    have parsedAgain := parse_toBytes_append sendable []
    rw [List.append_nil, ← length_toBytes] at parsedAgain
    have shorter : packet.toBytes.length ≤ used := by
      have atLeast := read.length_pointers_le
      rw [length_toBytes, taken, size, sizeFor, Frame.size, pointerSize]
      omega
    refine ⟨le_length_of_parse parsed, ⟨packet.toBytes, sendable.serialize, shorter, parsedAgain,
      toBytes_eq_take_iff parsed⟩, parse_take_append parsed, ?_⟩
    intro length short
    exact parse_take_of_lt parsed short

/-- A packet with its own items in another order, one of them twice, and a header that is not all
zeros. -/
theorem written_and_read_apart_out_of_order :
    let items : List Bytes :=
      [[0x80, 0, 0, 0, 0, 0, 4, 2], [0x80, 0, 0, 0, 0, 0, 1, 9], [0x80, 0, 0, 0, 0, 0, 2, 5],
        [0x80, 0, 0, 0, 0, 0, 3, 1], [0x80, 0, 0, 0, 0, 0, 1, 7]]
    let bytes := [0x53, 4, 7, 1, 0, 3, 0, 5] ++ items.flatten ++ [0xaa, 0xbb, 0xcc]
    let packet : Packet := ⟨7, 5, 1, 2, 8, [], [0xaa, 0xbb]⟩
    (∃ again, packet.serialize = .ok again ∧ again.length ≤ 50 ∧ again ≠ bytes.take 50 ∧
      parse again = .ok (packet, again.length)) ∧
    parse (bytes.take 50 ++ [0x53]) = .ok (packet, 50) ∧
    ∃ cause, parse (bytes.take 49) = .error cause := by
  intro items bytes packet
  have parsed : parse bytes = .ok (packet, 50) := by
    decide +kernel
  obtain ⟨_, ⟨again, written, shorter, readAgain, same_iff⟩, behind, cutOff⟩ :=
    written_and_read_apart.2 bytes packet 50 parsed
  refine ⟨⟨again, written, shorter, ?_, readAgain⟩, behind [0x53], cutOff 49 (by decide)⟩
  intro same
  have canonical := same_iff.1 same
  have sixth : bytes[5]? = some 3 := rfl
  rw [canonical.sixth] at sixth
  revert sixth
  decide

end Packet
end Spead
