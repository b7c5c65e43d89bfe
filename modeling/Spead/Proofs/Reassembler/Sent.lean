import Spead.Proofs.Heap.Cutting
import Spead.Proofs.Heap.Resolving

/-!
Incomplete heaps made of packets that were sent.

If all packets of a block carry the pointers and the payload of one heap, then the block, once it
covers the payload, gives the heap as it was laid out.
-/

namespace Spead

theorem exists_of_latestByte?
    {block : List Packet} {position : Nat} {byte : UInt8}
    (latest : latestByte? block position = some byte) :
    ∃ packet ∈ block, position ∈ packet.span ∧ packet.byteAt? position = some byte := by
  obtain ⟨earlier, packet, later, rfl, inside, _, content⟩ :=
    (latestByte?_eq_some_iff block position byte).1 latest
  exact ⟨packet, by simp, inside, content⟩

namespace PartialHeap

section Sent

variable {partialHeap : PartialHeap} {block : List Packet} {heap : Heap}
  {pointers : List UInt64} {payload : Bytes}

/-- What an incomplete heap knows from the packets of a heap that was sent. -/
theorem MadeOf.sent
    (made : partialHeap.MadeOf block) (begun : block ≠ [])
    (carried : ∀ packet ∈ block, heap.Carries pointers payload packet) :
    partialHeap.count = heap.count ∧ partialHeap.heapLength = payload.length ∧
      partialHeap.addressBits = heap.flavour.addressBits ∧ partialHeap.pointers = pointers := by
  obtain ⟨packet, member⟩ := List.exists_mem_of_ne_nil block begun
  have carries := carried packet member
  refine ⟨?_, ?_, ?_, ?_⟩
  · rw [← made.heapCount packet member, carries.heapCount]
  · rw [← made.heapLength packet member, carries.heapLength]
  · rw [← made.addressBits packet member, carries.addressBits]
  · rw [← made.pointers packet member, carries.pointers]

theorem MadeOf.payload_eq
    (made : partialHeap.MadeOf block) (begun : block ≠ [])
    (carried : ∀ packet ∈ block, heap.Carries pointers payload packet)
    (complete : partialHeap.isComplete = true) :
    partialHeap.payload.toBytes = payload := by
  have sameLength := (made.sent begun carried).2.1
  apply List.ext_getElem?
  intro position
  by_cases inside : position < partialHeap.heapLength
  · have held : position < partialHeap.payload.toBytes.length := by
      rwa [made.length]
    have latest := made.byte_of_isComplete complete position inside
    rw [List.getElem?_eq_getElem held] at latest ⊢
    obtain ⟨packet, member, inSpan, content⟩ := exists_of_latestByte? latest.symm
    rw [← content, (carried packet member).byteAt? inSpan]
  · have short : partialHeap.payload.toBytes.length ≤ position := by
      rw [made.length]
      omega
    rw [List.getElem?_eq_none short, List.getElem?_eq_none (by omega)]

/-- A complete heap is resolved into what was sent. -/
theorem MadeOf.resolve_eq
    (made : partialHeap.MadeOf block) (begun : block ≠ [])
    (carried : ∀ packet ∈ block, heap.Carries pointers payload packet)
    (layout : heap.layout = .ok (pointers, payload))
    (complete : partialHeap.isComplete = true) :
    ∃ received, heap.delivered? = some received ∧
      partialHeap.resolve heap.flavour.compat = .ok received := by
  obtain ⟨sameCount, _, sameBits, samePointers⟩ := made.sent begun carried
  refine ⟨_, Heap.delivered?_of_layout layout, ?_⟩
  unfold PartialHeap.resolve
  rw [sameBits, heap.flavour.of_addressBits]
  dsimp only
  rw [sameCount, samePointers, made.payload_eq begun carried complete]
  exact (Heap.laidOut_of_layout layout).resolve

end Sent

end PartialHeap
end Spead
