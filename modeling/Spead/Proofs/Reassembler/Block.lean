import Spead.Proofs.Buffer
import Spead.Proofs.Coverage
import Spead.Reassembler.Partial

/-!
Incomplete heaps as blocks of packets.

A block is the list of the packets that were added to a heap since it was begun. The heap holds
what the first packet says about it, the positions of all the slices, and at every position the
byte of the latest slice there.
-/

namespace Spead

/-! ## Blocks -/

namespace Packet

/-- Packets agree if they say the same about the whole heap. -/
structure Agrees (left right : Packet) : Prop where
  heapLength : left.heapLength = right.heapLength
  addressBits : left.addressBits = right.addressBits
  pointers : left.pointers = right.pointers

/-- The slice of a packet has its declared length and lies in the heap. -/
structure Fits (packet : Packet) : Prop where
  inside : packet.payloadOffset + packet.payloadLength ≤ packet.heapLength
  length : packet.payload.length = packet.payloadLength

/-- The byte that a packet brings for a position of the heap's payload. -/
def byteAt? (packet : Packet) (position : Nat) : Option UInt8 :=
  packet.payload[position - packet.payloadOffset]?

end Packet

/-- The byte that the latest packet with a position brings for it. -/
def latestByte? (block : List Packet) (position : Nat) : Option UInt8 :=
  (block.reverse.find? fun packet => position ∈ packet.span).bind fun packet =>
    packet.byteAt? position

@[simp] theorem latestByte?_nil (position : Nat) : latestByte? [] position = none :=
  rfl

theorem latestByte?_append_singleton (block : List Packet) (packet : Packet) (position : Nat) :
    latestByte? (block ++ [packet]) position =
      if position ∈ packet.span then packet.byteAt? position else latestByte? block position := by
  by_cases inside : position ∈ packet.span
  · simp [latestByte?, inside]
  · simp [latestByte?, inside]

/-- The latest byte is that of a packet with the position behind which no other has it. -/
theorem latestByte?_eq_some_iff (block : List Packet) (position : Nat) (byte : UInt8) :
    latestByte? block position = some byte ↔
      ∃ earlier packet later, block = earlier ++ packet :: later ∧ position ∈ packet.span ∧
        (∀ other ∈ later, position ∉ other.span) ∧ packet.byteAt? position = some byte := by
  rw [latestByte?, Option.bind_eq_some_iff]
  constructor
  · rintro ⟨packet, found, content⟩
    rw [List.find?_eq_some_iff_append] at found
    obtain ⟨inside, later, earlier, order, outside⟩ := found
    refine ⟨earlier.reverse, packet, later.reverse, ?_, by simpa using inside, ?_, content⟩
    · rw [← List.reverse_reverse block, order]
      simp
    · intro other member
      simpa using outside other (List.mem_reverse.1 member)
  · rintro ⟨earlier, packet, later, rfl, inside, outside, content⟩
    refine ⟨packet, ?_, content⟩
    rw [List.find?_eq_some_iff_append]
    refine ⟨by simpa using inside, later.reverse, earlier.reverse, by simp, ?_⟩
    intro other member
    simpa using outside other (List.mem_reverse.1 member)

/-- The positions that the packets of a block bring. -/
def gathered (block : List Packet) : Finset Nat :=
  Coverage.positions (block.map Packet.span)

theorem mem_gathered {block : List Packet} {position : Nat} :
    position ∈ gathered block ↔ ∃ packet ∈ block, position ∈ packet.span := by
  simp [gathered]

theorem gathered_append (block other : List Packet) :
    gathered (block ++ other) = gathered block ∪ gathered other := by
  ext position
  simp only [mem_gathered, Finset.mem_union, List.mem_append, or_and_right, exists_or]

/-! ## Why a heap is given up -/

/-- The cause lies in a packet of the heap with the given number, or in the whole of the heap. -/
inductive ReassemblyError.Blames (heapCount : Nat) : ReassemblyError → Prop
  | heapLength (expected actual : Nat) :
      Blames heapCount (.heapLengthMismatch heapCount expected actual)
  | flavour (expected actual : Nat) :
      Blames heapCount (.flavourMismatch heapCount expected actual)
  | pointers : Blames heapCount (.pointerMismatch heapCount)
  | item (id offset heapLength : Nat) :
      Blames heapCount (.invalidItemPointer heapCount id offset heapLength)
  | heap (reason : HeapFault) : Blames heapCount (.invalidHeap heapCount reason)

namespace PartialHeap

theorem blames_of_objection?
    {heap : PartialHeap} {packet : Packet} {cause : ReassemblyError}
    (objection : heap.objection? packet = some cause) :
    cause.Blames heap.count := by
  unfold objection? at objection
  split at objection
  · cases objection
    exact .heapLength _ _
  split at objection
  · cases objection
    exact .flavour _ _
  split at objection
  · cases objection
    exact .pointers
  split at objection
  · cases objection
    exact .heap _
  · cases objection

theorem blames_of_resolve
    {heap : PartialHeap} {compat : Compat} {cause : ReassemblyError}
    (unresolved : heap.resolve compat = .error cause) :
    cause.Blames heap.count := by
  unfold resolve at unresolved
  split at unresolved
  · next flavour _ =>
      unfold ReceivedHeap.resolve PointerTable.resolve at unresolved
      dsimp only at unresolved
      split at unresolved
      · cases unresolved
        exact .item _ _ _
      · cases unresolved
  · cases unresolved
    exact .heap _

end PartialHeap

/-! ## Heaps made of blocks -/

namespace PartialHeap

private theorem ite_some_eq_none_iff {content : Type} (condition : Prop) [Decidable condition]
    (cause : content) (rest : Option content) :
    (if condition then some cause else rest) = none ↔ ¬condition ∧ rest = none := by
  split
  · next holds => simp [holds]
  · next fails => simp [fails]

theorem objection?_eq_none_iff (heap : PartialHeap) (packet : Packet) :
    heap.objection? packet = none ↔
      packet.heapLength = heap.heapLength ∧ packet.addressBits = heap.addressBits ∧
        packet.pointers = heap.pointers ∧ packet.Fits := by
  simp only [objection?, ite_some_eq_none_iff, ne_eq, not_not, and_true,
    Bool.or_eq_true, decide_eq_true_eq, not_or, Nat.not_lt]
  simp only [Packet.span]
  constructor
  · rintro ⟨sameLength, sameBits, samePointers, inside, length⟩
    exact ⟨sameLength, sameBits, samePointers, sameLength ▸ inside, length⟩
  · rintro ⟨sameLength, sameBits, samePointers, fits⟩
    exact ⟨sameLength, sameBits, samePointers, sameLength ▸ fits.inside, fits.length⟩

/-- The heap is made of the packets of the block, added in their order. -/
structure MadeOf (heap : PartialHeap) (block : List Packet) : Prop where
  heapCount : ∀ packet ∈ block, packet.heapCount = heap.count
  heapLength : ∀ packet ∈ block, packet.heapLength = heap.heapLength
  addressBits : ∀ packet ∈ block, packet.addressBits = heap.addressBits
  pointers : ∀ packet ∈ block, packet.pointers = heap.pointers
  fits : ∀ packet ∈ block, packet.Fits
  canonical : Coverage.Canonical heap.received.spans
  received : ∀ position, position ∈ heap.received ↔ ∃ packet ∈ block, position ∈ packet.span
  length : heap.payload.toBytes.length = heap.heapLength
  byte : ∀ position < heap.heapLength,
    heap.payload.toBytes[position]? = some ((latestByte? block position).getD 0)
  endOfStream : heap.endOfStream = block.any Packet.carriesStop

theorem madeOf_begin (packet : Packet) (sequence : Nat) :
    (begin packet sequence).MadeOf [] where
  heapCount := by simp
  heapLength := by simp
  addressBits := by simp
  pointers := by simp
  fits := by simp
  canonical := Coverage.canonical_nil
  received := by simp [begin]
  length := by simp [begin]
  byte := by
    intro position inside
    simp only [begin] at inside ⊢
    simp [inside]
  endOfStream := rfl

theorem madeOf_add
    {heap : PartialHeap} {block : List Packet} {packet : Packet}
    (made : heap.MadeOf block) (ofHeap : packet.heapCount = heap.count)
    (accepted : heap.objection? packet = none) :
    (heap.add packet).MadeOf (block ++ [packet]) := by
  obtain ⟨sameLength, sameBits, samePointers, fits⟩ :=
    (objection?_eq_none_iff heap packet).1 accepted
  have slice : packet.payloadOffset + packet.payload.length ≤ heap.payload.toBytes.length := by
    rw [made.length, ← sameLength, fits.length]
    exact fits.inside
  constructor
  case heapCount => simpa [or_imp, forall_and, add] using ⟨made.heapCount, ofHeap⟩
  case heapLength => simpa [or_imp, forall_and, add] using ⟨made.heapLength, sameLength⟩
  case addressBits => simpa [or_imp, forall_and, add] using ⟨made.addressBits, sameBits⟩
  case pointers => simpa [or_imp, forall_and, add] using ⟨made.pointers, samePointers⟩
  case fits => simpa [or_imp, forall_and] using ⟨made.fits, fits⟩
  case canonical => exact Coverage.canonical_insert made.canonical packet.span
  case received =>
    intro position
    simp only [add, Coverage.mem_insert made.canonical, made.received, List.mem_append,
      List.mem_singleton, or_and_right, exists_or, exists_eq_left]
    exact or_comm
  case length =>
    simp only [add]
    rw [Buffer.length_toBytes_write heap.payload slice, made.length]
  case byte =>
    intro position inside
    simp only [add] at inside ⊢
    rw [Buffer.getElem?_toBytes_write heap.payload slice, latestByte?_append_singleton]
    have sameSpan :
        (packet.payloadOffset ≤ position ∧
            position < packet.payloadOffset + packet.payload.length) ↔
          position ∈ packet.span := by
      rw [fits.length]
      rfl
    by_cases inSlice : position ∈ packet.span
    · have within := sameSpan.2 inSlice
      have held : position - packet.payloadOffset < packet.payload.length := by omega
      rw [if_pos within, if_pos inSlice, Packet.byteAt?, List.getElem?_eq_getElem held]
      rfl
    · rw [if_neg (fun within => inSlice (sameSpan.1 within)), if_neg inSlice]
      exact made.byte position inside
  case endOfStream => simp [add, made.endOfStream]

theorem MadeOf.received_lt
    {heap : PartialHeap} {block : List Packet} (made : heap.MadeOf block) :
    ∀ position ∈ heap.received, position < heap.heapLength := by
  intro position member
  obtain ⟨packet, inBlock, inside⟩ := (made.received position).1 member
  have bound := (made.fits packet inBlock).inside
  rw [made.heapLength packet inBlock] at bound
  rw [Span.mem_iff] at inside
  simp only [Packet.span] at inside
  omega

theorem MadeOf.positions_received
    {heap : PartialHeap} {block : List Packet} (made : heap.MadeOf block) :
    Coverage.positions heap.received.spans = gathered block := by
  ext position
  rw [mem_gathered, ← made.received, Coverage.mem_iff, Coverage.mem_positions]

/-- A heap has received as many bytes as its block has positions. -/
theorem MadeOf.total_eq_card
    {heap : PartialHeap} {block : List Packet} (made : heap.MadeOf block) :
    heap.received.total = (gathered block).card := by
  rw [← made.positions_received, Coverage.card_positions made.canonical, Coverage.total]

/-- A packet brings as many new bytes as it adds positions to the block. -/
theorem MadeOf.missing_eq_card
    {heap : PartialHeap} {block : List Packet} (made : heap.MadeOf block) (packet : Packet) :
    heap.received.missing packet.span = (gathered [packet] \ gathered block).card := by
  rw [Coverage.missing_eq_card made.canonical, made.positions_received]
  simp [gathered, Coverage.positions]

theorem MadeOf.isComplete_iff
    {heap : PartialHeap} {block : List Packet} (made : heap.MadeOf block) :
    heap.isComplete = true ↔
      ∀ position < heap.heapLength, ∃ packet ∈ block, position ∈ packet.span := by
  rw [isComplete, Coverage.isComplete_iff made.canonical]
  simp only [made.received]

theorem MadeOf.total_lt
    {heap : PartialHeap} {block : List Packet} (made : heap.MadeOf block)
    (incomplete : heap.isComplete = false) :
    heap.received.total < heap.heapLength :=
  Coverage.total_lt made.canonical made.received_lt incomplete

/-- In a complete heap every byte is the latest one received for its position. -/
theorem MadeOf.byte_of_isComplete
    {heap : PartialHeap} {block : List Packet} (made : heap.MadeOf block)
    (complete : heap.isComplete = true) (position : Nat) (inside : position < heap.heapLength) :
    heap.payload.toBytes[position]? = latestByte? block position := by
  obtain ⟨packet, member, inSpan⟩ := made.isComplete_iff.1 complete position inside
  rw [made.byte position inside]
  obtain ⟨latest, found⟩ :
      ∃ latest, (block.reverse.find? fun packet => position ∈ packet.span) = some latest := by
    rw [← Option.isSome_iff_exists, List.find?_isSome]
    exact ⟨packet, List.mem_reverse.2 member, by simpa using inSpan⟩
  have latestMember := List.mem_reverse.1 (List.mem_of_find?_eq_some found)
  have latestInside : position ∈ latest.span := by simpa using List.find?_some found
  have held : position - latest.payloadOffset < latest.payload.length := by
    rw [(made.fits latest latestMember).length]
    rw [Span.mem_iff] at latestInside
    simp only [Packet.span] at latestInside
    omega
  simp [latestByte?, found, Packet.byteAt?, List.getElem?_eq_getElem held]

end PartialHeap
end Spead
