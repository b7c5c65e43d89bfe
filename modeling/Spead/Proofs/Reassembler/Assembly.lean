import Spead.Proofs.Reassembler.Run

/-!
Which heaps a reassembler hands out.

Whatever packets come, a heap that is handed out is assembled from a block of packets that agree
with each other and cover the payload; where slices overlap, the latest counts. A packet that
disagrees with its block ends the block, and nothing of it is handed out later.
-/

namespace Spead

/-! ## Disagreement -/

/-- Why a packet disagrees with the first one of its block. The length of the heap is looked at
first, then the width of its addresses, then its pointers. -/
inductive Packet.Disagrees (first packet : Packet) : ReassemblyError → Prop
  | heapLength :
      packet.heapLength ≠ first.heapLength →
      Disagrees first packet
        (.heapLengthMismatch packet.heapCount first.heapLength packet.heapLength)
  | addressBits :
      packet.heapLength = first.heapLength →
      packet.addressBits ≠ first.addressBits →
      Disagrees first packet
        (.flavourMismatch packet.heapCount first.addressBits packet.addressBits)
  | pointers :
      packet.heapLength = first.heapLength →
      packet.addressBits = first.addressBits →
      packet.pointers ≠ first.pointers →
      Disagrees first packet (.pointerMismatch packet.heapCount)

theorem Packet.exists_disagrees {first packet : Packet} (different : ¬ packet.Agrees first) :
    ∃ cause, first.Disagrees packet cause := by
  by_cases sameLength : packet.heapLength = first.heapLength
  · by_cases sameBits : packet.addressBits = first.addressBits
    · refine ⟨_, .pointers sameLength sameBits ?_⟩
      intro samePointers
      exact different ⟨sameLength, sameBits, samePointers⟩
    · exact ⟨_, .addressBits sameLength sameBits⟩
  · exact ⟨_, .heapLength sameLength⟩

theorem PartialHeap.objection?_of_disagrees
    {heap : PartialHeap} {first packet : Packet} {cause : ReassemblyError}
    (ofHeap : packet.heapCount = heap.count) (sameLength : first.heapLength = heap.heapLength)
    (sameBits : first.addressBits = heap.addressBits)
    (samePointers : first.pointers = heap.pointers)
    (disagrees : first.Disagrees packet cause) :
    heap.objection? packet = some cause := by
  unfold objection?
  rw [← ofHeap, ← sameLength, ← sameBits, ← samePointers]
  cases disagrees with
  | heapLength otherLength => rw [if_pos otherLength]
  | addressBits agreed otherBits => rw [if_neg (not_not.2 agreed), if_pos otherBits]
  | pointers agreed agreedBits otherPointers =>
      rw [if_neg (not_not.2 agreed), if_neg (not_not.2 agreedBits), if_pos otherPointers]

/-! ## Assembled heaps -/

/-- A received heap made of a block of packets. -/
structure AssembledFrom
    (compat : Compat) (block : List Packet) (received : ReceivedHeap) : Prop where
  heapCount : ∀ packet ∈ block, packet.heapCount = received.count
  agree : ∀ left ∈ block, ∀ right ∈ block, left.Agrees right
  covered : ∀ packet ∈ block, ∀ position < packet.heapLength,
    ∃ other ∈ block, position ∈ other.span
  resolved : ∀ packet ∈ block, ∃ flavour payload,
    Flavour.of packet.addressBits compat = .ok flavour ∧
      payload.length = packet.heapLength ∧
      (∀ position < packet.heapLength, payload[position]? = latestByte? block position) ∧
      ReceivedHeap.resolve received.count flavour packet.pointers payload = .ok received

theorem ReceivedHeap.count_of_resolve
    {count : Nat} {flavour : Flavour} {pointers : List UInt64} {payload : Bytes}
    {received : ReceivedHeap}
    (resolved : ReceivedHeap.resolve count flavour pointers payload = .ok received) :
    received.count = count := by
  unfold ReceivedHeap.resolve at resolved
  cases items : PointerTable.resolve count flavour pointers payload with
  | error cause =>
      rw [items] at resolved
      cases resolved
  | ok found =>
      rw [items] at resolved
      cases resolved
      rfl

theorem PartialHeap.resolve_eq_ok
    {heap : PartialHeap} {compat : Compat} {received : ReceivedHeap}
    (resolved : heap.resolve compat = .ok received) :
    ∃ flavour, Flavour.of heap.addressBits compat = .ok flavour ∧
      ReceivedHeap.resolve heap.count flavour heap.pointers heap.payload.toBytes =
        .ok received := by
  unfold resolve at resolved
  split at resolved
  · next flavour width => exact ⟨flavour, width, resolved⟩
  · cases resolved

theorem PartialHeap.count_of_resolve
    {heap : PartialHeap} {compat : Compat} {received : ReceivedHeap}
    (resolved : heap.resolve compat = .ok received) :
    received.count = heap.count := by
  obtain ⟨_, _, items⟩ := resolve_eq_ok resolved
  exact ReceivedHeap.count_of_resolve items

theorem PartialHeap.MadeOf.assembledFrom
    {heap : PartialHeap} {block : List Packet} {compat : Compat} {received : ReceivedHeap}
    (made : heap.MadeOf block) (complete : heap.isComplete = true)
    (resolved : heap.resolve compat = .ok received) :
    AssembledFrom compat block received := by
  obtain ⟨flavour, width, items⟩ := resolve_eq_ok resolved
  have sameCount := count_of_resolve resolved
  constructor
  case heapCount =>
    intro packet member
    rw [made.heapCount packet member, sameCount]
  case agree =>
    intro left leftMember right rightMember
    constructor
    · rw [made.heapLength left leftMember, made.heapLength right rightMember]
    · rw [made.addressBits left leftMember, made.addressBits right rightMember]
    · rw [made.pointers left leftMember, made.pointers right rightMember]
  case covered =>
    intro packet member
    rw [made.heapLength packet member]
    exact made.isComplete_iff.1 complete
  case resolved =>
    intro packet member
    rw [made.addressBits packet member, made.heapLength packet member,
      made.pointers packet member, sameCount]
    exact ⟨flavour, heap.payload.toBytes, width, made.length,
      made.byte_of_isComplete complete, items⟩

namespace Reassembler

/-! ## What is told -/

section Told

variable {reassembler after : Reassembler} {events : List ReassemblyEvent}
  {block : Nat → List Packet} {received : ReceivedHeap}

/-- A packet completes its heap, and the heap is handed out. -/
def HandsOut (reassembler : Reassembler) (packet : Packet) (received : ReceivedHeap) : Prop :=
  (reassembler.target packet).objection? packet = none ∧
    ((reassembler.target packet).add packet).isComplete = true ∧
    ((reassembler.target packet).add packet).resolve reassembler.settings.compat = .ok received

theorem Accepts.handsOut
    {packet : Packet} (coherent : reassembler.Coherent)
    (running : reassembler.stopped = false)
    (fresh : reassembler.fate? packet.heapCount = none)
    (accepts : reassembler.Accepts packet after events) (told : .heap received ∈ events) :
    reassembler.HandsOut packet received := by
  cases accepts with
  | oversized _ _ _ => simp at told
  | refused _ _ => simp at told
  | unresolved _ _ _ _ => simp at told
  | completed accepted complete resolved _ =>
      split at told
      · cases told
      · rw [List.mem_singleton] at told
        cases told
        exact ⟨accepted, complete, resolved⟩
  | kept _ _ recounts evicted =>
      have evicts := evicts_kept coherent running fresh recounts evicted
      obtain ⟨heap, _, description⟩ := evicts.events _ told
      cases description

theorem not_heap_mem_stop
    (coherent : reassembler.Coherent) (received : ReceivedHeap) :
    .heap received ∉ reassembler.stop.2 := by
  intro told
  rcases mem_stop coherent told with same | ⟨heap, _, same⟩
  · cases same
  · cases same

theorem Inserts.handsOut
    {packet : Packet} (coherent : reassembler.Coherent)
    (inserts : reassembler.Inserts packet after events) (told : .heap received ∈ events) :
    reassembler.HandsOut packet received := by
  cases inserts with
  | ignored _ _ => cases told
  | accepted running fresh _ accepts => exact accepts.handsOut coherent running fresh told
  | ending running fresh _ accepts =>
      rcases List.mem_append.1 told with first | last
      · exact accepts.handsOut coherent running fresh first
      · exact absurd last
          (not_heap_mem_stop (accepts.coherent coherent running fresh) received)

theorem Answers.handsOut
    {call : Call} (coherent : reassembler.Coherent)
    (answers : reassembler.Answers call after events) (told : .heap received ∈ events) :
    ∃ packet, call.packet? = some packet ∧ reassembler.HandsOut packet received := by
  cases answers with
  | packet brought inserts => exact ⟨_, brought, inserts.handsOut coherent told⟩
  | malformed _ _ => cases told
  | stop _ => exact absurd told (not_heap_mem_stop coherent received)

theorem Faithful.assembledFrom
    {packet : Packet} (faithful : reassembler.Faithful block)
    (handsOut : reassembler.HandsOut packet received) :
    packet.heapCount = received.count ∧
      AssembledFrom reassembler.settings.compat (block received.count ++ [packet]) received := by
  obtain ⟨accepted, complete, resolved⟩ := handsOut
  have made := faithful.madeOf_add accepted
  have assembled := made.assembledFrom complete resolved
  have sameCount : packet.heapCount = received.count :=
    assembled.heapCount packet (by simp)
  rw [sameCount] at assembled
  exact ⟨sameCount, assembled⟩

/-- A packet that disagrees with its block is the end of the heap. -/
theorem Faithful.refuses
    {first packet : Packet} {cause : ReassemblyError} (faithful : reassembler.Faithful block)
    (begun : (block packet.heapCount).head? = some first)
    (disagrees : first.Disagrees packet cause)
    (inserts : reassembler.Inserts packet after events) :
    (∃ rest, events = .dropped cause :: rest ∧ ∀ received, .heap received ∉ rest) ∧
      after.heaps.get? packet.heapCount = none := by
  have coherent := faithful.coherent
  obtain ⟨heap, found⟩ :
      ∃ heap, reassembler.heaps.get? packet.heapCount = some heap := by
    rw [← Option.isSome_iff_exists, ← Option.ne_none_iff_isSome]
    intro absent
    rw [faithful.absent packet.heapCount absent] at begun
    cases begun
  have made := faithful.made packet.heapCount heap found
  have member := List.mem_of_head? begun
  have objection : (reassembler.target packet).objection? packet = some cause := by
    rw [target_of_get? found]
    exact PartialHeap.objection?_of_disagrees (coherent.keyed _ heap found).symm
      (made.heapLength first member) (made.addressBits first member)
      (made.pointers first member) disagrees
  have refused
      {left : Reassembler} {told : List ReassemblyEvent}
      (accepts : reassembler.Accepts packet left told) :
      told = [.dropped cause] ∧ left.heaps.get? packet.heapCount = none := by
    cases accepts with
    | oversized absent _ _ =>
        rw [found] at absent
        cases absent
    | refused other ends =>
        rw [objection] at other
        cases other
        exact ⟨rfl, by rw [ends.get?, if_pos rfl]⟩
    | unresolved accepted _ _ _ =>
        rw [objection] at accepted
        cases accepted
    | completed accepted _ _ _ =>
        rw [objection] at accepted
        cases accepted
    | kept accepted _ _ _ =>
        rw [objection] at accepted
        cases accepted
  cases inserts with
  | ignored passed recounts =>
      rcases passed with stopped | finished
      · rw [coherent.emptied stopped] at found
        cases found
      · rw [coherent.unfinished packet.heapCount finished] at found
        cases found
  | accepted running fresh _ accepts =>
      obtain ⟨told, gone⟩ := refused accepts
      exact ⟨⟨[], told, by simp⟩, gone⟩
  | ending running fresh _ accepts =>
      obtain ⟨told, gone⟩ := refused accepts
      have settled := accepts.coherent coherent running fresh
      refine ⟨⟨_, by rw [told]; rfl, not_heap_mem_stop settled⟩, ?_⟩
      rw [heaps_stop settled]
      rfl

end Told

/-! ## Whole runs -/

namespace Recording

/-- A block holds packets that came after any earlier point of the run, behind those that the
heap had then. -/
theorem block_run_append
    (settings : ReassemblerSettings) (calls later : List Call) (count : Nat) :
    List.Sublist ((run settings (calls ++ later)).block count)
      ((run settings calls).block count ++ later.filterMap Call.packet?) := by
  induction later using List.reverseRecOn with
  | nil => simp
  | append_singleton later call inductionHypothesis =>
      rw [← List.append_assoc, run_append_singleton, List.filterMap_append, ← List.append_assoc]
      simp only [next, extend]
      split
      · refine inductionHypothesis.append ?_
        cases brought : call.packet? with
        | none => simp
        | some packet =>
            simp only [Option.toList_some, List.filterMap_cons, brought, List.filterMap_nil]
            exact List.filter_sublist
      · exact List.nil_sublist _

end Recording

/-- Every heap that is ever handed out is assembled from the packets accepted for it since it was
begun, the last of which is the one that completes it. A packet that disagrees with the first one
of its block is answered with the cause and ends the heap; whatever is handed out later under the
same number is assembled from packets that came later. -/
theorem heap_told_assembledFrom
    (settings : ReassemblerSettings) (calls : List Call) (call : Call) :
    let recording := Recording.run settings calls
    let events := (recording.reassembler.call call).2
    (∀ received, .heap received ∈ events →
      ∃ packet, call.packet? = some packet ∧
        AssembledFrom settings.compat (recording.block received.count ++ [packet]) received) ∧
    (∀ packet first, call.packet? = some packet →
      (recording.block packet.heapCount).head? = some first → ¬ packet.Agrees first →
      (∃ cause rest, first.Disagrees packet cause ∧ events = .dropped cause :: rest ∧
        ∀ received, .heap received ∉ rest) ∧
      (recording.reassembler.call call).1.heapState packet.heapCount ≠ .assembling ∧
      ∀ later again received,
        .heap received ∈
          ((Recording.run settings (calls ++ call :: later)).reassembler.call again).2 →
        received.count = packet.heapCount →
        ∃ block, List.Sublist block ((later ++ [again]).filterMap Call.packet?) ∧
          AssembledFrom settings.compat block received) := by
  intro recording events
  have faithful : recording.reassembler.Faithful recording.block :=
    Recording.faithful_run settings calls
  have answers := answers_call faithful.coherent call
  have assembled (calls : List Call) (call : Call) (received : ReceivedHeap)
      (told : .heap received ∈ ((Recording.run settings calls).reassembler.call call).2) :
      ∃ packet, call.packet? = some packet ∧
        AssembledFrom settings.compat
          ((Recording.run settings calls).block received.count ++ [packet]) received := by
    have faithful := Recording.faithful_run settings calls
    obtain ⟨packet, brought, handsOut⟩ :=
      (answers_call faithful.coherent call).handsOut faithful.coherent told
    have result := (faithful.assembledFrom handsOut).2
    rw [Recording.settings_run] at result
    exact ⟨packet, brought, result⟩
  refine ⟨assembled calls call, ?_⟩
  intro packet first brought begun different
  obtain ⟨cause, disagrees⟩ := Packet.exists_disagrees different
  obtain ⟨⟨rest, told, quiet⟩, gone⟩ :=
    faithful.refuses begun disagrees (answers.inserts brought)
  refine ⟨⟨cause, rest, disagrees, told, quiet⟩, ?_, ?_⟩
  · rw [heapState, Table.contains_eq_isSome_get?, gone]
    simp only [Option.isSome_none, Bool.false_eq_true, if_false]
    split <;> simp
  · intro later again received handedOut sameCount
    obtain ⟨last, broughtAgain, result⟩ := assembled _ again received handedOut
    refine ⟨_, ?_, result⟩
    have ended : (Recording.run settings (calls ++ [call])).block packet.heapCount = [] := by
      rw [Recording.run_append_singleton]
      exact extend_of_get?_eq_none _ _ gone
    have block := Recording.block_run_append settings (calls ++ [call]) later packet.heapCount
    rw [ended, List.nil_append, List.append_assoc, List.singleton_append] at block
    rw [sameCount, List.filterMap_append]
    refine block.append ?_
    simp [broughtAgain]

end Reassembler
end Spead
