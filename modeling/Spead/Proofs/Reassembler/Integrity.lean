import Spead.Proofs.Reassembler.Assembly
import Spead.Proofs.Reassembler.Sent

/-!
What is handed out when only packets of known heaps arrive.

Packets may be lost, repeated and mixed up, heaps may be driven out and begun again after they are
forgotten, and the stream may be stopped at any point: a heap that is handed out is one of those
that were sent, made of packets of it that did arrive.
-/

namespace Spead

/-! ## Heaps that lack bytes -/

/-- If the event gives up a heap for lack of bytes, then it tells of fewer than the heap has. -/
def ReassemblyEvent.TellsOfLack : ReassemblyEvent → Prop
  | .dropped (.evictedHeap _ received heapLength _) => received < heapLength
  | .dropped (.truncatedHeap _ received heapLength) => received < heapLength
  | _ => True

theorem ReassemblyError.Blames.tellsOfLack
    {heapCount : Nat} {cause : ReassemblyError} (blames : cause.Blames heapCount) :
    ReassemblyEvent.TellsOfLack (.dropped cause) := by
  cases blames <;> trivial

namespace Reassembler

section Lack

variable {reassembler after : Reassembler} {events : List ReassemblyEvent}
  {block : Nat → List Packet}

theorem Accepts.tellsOfLack
    {packet : Packet} (faithful : reassembler.Faithful block)
    (running : reassembler.stopped = false)
    (fresh : reassembler.fate? packet.heapCount = none)
    (accepts : reassembler.Accepts packet after events) :
    ∀ event ∈ events, event.TellsOfLack := by
  intro event told
  cases accepts with
  | oversized _ _ _ =>
      rw [List.mem_singleton] at told
      subst told
      trivial
  | refused objection _ =>
      rw [List.mem_singleton] at told
      subst told
      exact (PartialHeap.blames_of_objection? objection).tellsOfLack
  | unresolved _ _ unresolved _ =>
      rw [List.mem_singleton] at told
      subst told
      exact (PartialHeap.blames_of_resolve unresolved).tellsOfLack
  | completed _ _ _ _ =>
      split at told
      · cases told
      · rw [List.mem_singleton] at told
        subst told
        trivial
  | kept accepted incomplete recounts evicted =>
      have evicts := evicts_kept faithful.coherent running fresh recounts evicted
      obtain ⟨heap, found, rfl⟩ := evicts.events event told
      rw [recounts.heaps, get?_hold] at found
      split at found
      · cases found
        exact (faithful.madeOf_add accepted).total_lt incomplete
      · have made := faithful.made heap.count heap found
        exact made.total_lt (faithful.incomplete heap.count heap found)

theorem Faithful.tellsOfLack_stop (faithful : reassembler.Faithful block) :
    ∀ event ∈ reassembler.stop.2, event.TellsOfLack := by
  intro event told
  rcases mem_stop faithful.coherent told with rfl | ⟨heap, found, rfl⟩
  · trivial
  · have made := faithful.made heap.count heap found
    exact made.total_lt (faithful.incomplete heap.count heap found)

theorem Answers.tellsOfLack
    {call : Call} (faithful : reassembler.Faithful block)
    (answers : reassembler.Answers call after events) :
    ∀ event ∈ events, event.TellsOfLack := by
  cases answers with
  | malformed _ _ => simp
  | stop _ => exact faithful.tellsOfLack_stop
  | packet _ inserts =>
      cases inserts with
      | ignored _ _ => simp
      | accepted running fresh _ accepts => exact accepts.tellsOfLack faithful running fresh
      | ending running fresh _ accepts =>
          intro event told
          rcases List.mem_append.1 told with first | last
          · exact accepts.tellsOfLack faithful running fresh event first
          · have left := faithful.of_accepts running fresh accepts
            exact left.tellsOfLack_stop event last

end Lack

/-! ## Calls with packets of known heaps -/

/-- A request to stop, or a packet of one of the heaps as it is put on the wire. -/
inductive Drawn (sent : List Heap) : Call → Prop
  | stop : Drawn sent .stop
  | wire {heap : Heap} {maxPacketSize : Nat} {wires : List Bytes} {bytes : Bytes} :
      heap ∈ sent →
      heap.packetBytes maxPacketSize = .ok wires →
      bytes ∈ wires →
      Drawn sent (.receive bytes)

theorem Drawn.cuts
    {sent : List Heap} {call : Call} {packet : Packet} (drawn : Drawn sent call)
    (avoids : ∀ heap ∈ sent, heap.AvoidsPacketItems) (brought : call.packet? = some packet) :
    ∃ heap ∈ sent, heap.Cuts packet := by
  cases drawn with
  | stop => cases brought
  | @wire heap maxPacketSize wires bytes ofSent cut member =>
      unfold Heap.packetBytes at cut
      cases packets : heap.packets maxPacketSize with
      | error _ =>
          rw [packets] at cut
          cases cut
      | ok all =>
          rw [packets] at cut
          cases cut
          obtain ⟨own, ofCut, rfl⟩ := List.mem_map.1 member
          have cuts : heap.Cuts own := ⟨maxPacketSize, all, packets, ofCut⟩
          have parsed := cuts.parse (avoids heap ofSent)
          simp only [Call.packet?, parsed, Except.toOption, Option.map_some,
            Option.some_inj] at brought
          subst brought
          exact ⟨heap, ofSent, cuts⟩

section Told

variable {settings : ReassemblerSettings} {sent : List Heap} {calls : List Call} {call : Call}
  (distinct : (sent.map Heap.count).Nodup)
  (avoids : ∀ heap ∈ sent, heap.AvoidsPacketItems)
  (compat : ∀ heap ∈ sent, heap.flavour.compat = settings.compat)
  (drawn : ∀ given ∈ calls ++ [call], Drawn sent given)

include distinct avoids compat drawn

/-- A heap that is handed out is the one that was sent under its number, made of packets of it that
did arrive. -/
theorem exists_delivered_of_told
    {received : ReceivedHeap}
    (told : .heap received ∈ ((Recording.run settings calls).reassembler.call call).2) :
    ∃ heap ∈ sent, heap.count = received.count ∧ heap.delivered? = some received ∧
      ∃ block, block ≠ [] ∧ List.Sublist block ((calls ++ [call]).filterMap Call.packet?) ∧
        (∀ packet ∈ block, heap.Cuts packet) ∧
        AssembledFrom settings.compat block received := by
  have faithful := Recording.faithful_run settings calls
  have answers := answers_call faithful.coherent call
  obtain ⟨packet, brought, handsOut⟩ := answers.handsOut faithful.coherent told
  obtain ⟨sameCount, assembled⟩ := faithful.assembledFrom handsOut
  obtain ⟨accepted, complete, resolved⟩ := handsOut
  rw [Recording.settings_run] at assembled resolved
  let block := (Recording.run settings calls).block received.count ++ [packet]
  have arrived : List.Sublist block ((calls ++ [call]).filterMap Call.packet?) := by
    rw [List.filterMap_append]
    apply List.Sublist.append
    · have recorded := Recording.block_run_append settings [] calls received.count
      rwa [List.nil_append] at recorded
    · simp [brought]
  obtain ⟨heap, member, cuts⟩ : ∃ heap ∈ sent, heap.Cuts packet :=
    (drawn call (by simp)).cuts avoids brought
  obtain ⟨pointers, payload, layout, carries⟩ := cuts.carries
  have heapCount : heap.count = received.count := by rw [← carries.heapCount, sameCount]
  have cutBlock : ∀ other ∈ block, heap.Cuts other := by
    intro other inBlock
    obtain ⟨given, ofCalls, broughtOther⟩ := List.mem_filterMap.1 (arrived.mem inBlock)
    obtain ⟨source, ofSent, sourceCuts⟩ := (drawn given ofCalls).cuts avoids broughtOther
    apply Heap.cuts_of_heapCount distinct member ofSent sourceCuts
    rw [assembled.heapCount other inBlock, heapCount]
  have carried : ∀ other ∈ block, heap.Carries pointers payload other := by
    intro other inBlock
    exact (cutBlock other inBlock).carries_of_layout layout
  have made := faithful.madeOf_add accepted
  rw [sameCount] at made
  obtain ⟨delivered, isDelivered, resolvedAgain⟩ :=
    made.resolve_eq (by simp) carried layout complete
  rw [compat heap member] at resolvedAgain
  have same : delivered = received := Except.ok.inj (resolvedAgain.symm.trans resolved)
  subst same
  exact ⟨heap, member, heapCount, isDelivered, block, by simp [block], arrived, cutBlock,
    assembled⟩

end Told

/-- Whatever is lost, repeated or mixed up: a heap that is handed out is the one that was sent
under its number. It is made of packets of that heap which arrived and which cover its payload,
and a heap that is given up for lack of bytes does lack some. -/
theorem heap_told_sent
    {settings : ReassemblerSettings} {sent : List Heap} {calls : List Call} {call : Call}
    (distinct : (sent.map Heap.count).Nodup)
    (avoids : ∀ heap ∈ sent, heap.AvoidsPacketItems)
    (compat : ∀ heap ∈ sent, heap.flavour.compat = settings.compat)
    (drawn : ∀ given ∈ calls ++ [call], Drawn sent given) :
    let events := ((Recording.run settings calls).reassembler.call call).2
    (∀ received, .heap received ∈ events →
      ∃ heap ∈ sent, heap.count = received.count ∧ heap.delivered? = some received ∧
        ∃ block, block ≠ [] ∧ List.Sublist block ((calls ++ [call]).filterMap Call.packet?) ∧
          (∀ packet ∈ block, heap.Cuts packet) ∧
          AssembledFrom settings.compat block received) ∧
    ∀ event ∈ events, event.TellsOfLack := by
  intro events
  have faithful := Recording.faithful_run settings calls
  have answers := answers_call faithful.coherent call
  refine ⟨?_, answers.tellsOfLack faithful⟩
  intro received told
  exact exists_delivered_of_told distinct avoids compat drawn told

/-- A heap in two packets, of which the second comes first and twice. -/
theorem heap_told_sent_in_two_packets :
    let heap : Heap := ⟨7, .standard, [⟨ItemId.firstUser, .bytes [1, 2, 3] false⟩]⟩
    ∃ first second, heap.packetBytes 50 = .ok [first, second] ∧
      let calls : List Call := [.receive second, .receive second]
      ∀ received,
        .heap received ∈ ((Recording.run {} calls).reassembler.call (.receive first)).2 →
        heap.delivered? = some received := by
  intro heap
  obtain ⟨first, second, cut⟩ : ∃ first second, heap.packetBytes 50 = .ok [first, second] := by
    simp only [heap]
    exact ⟨_, _, rfl⟩
  refine ⟨first, second, cut, ?_⟩
  intro calls received told
  have avoids : ∀ other ∈ [heap], other.AvoidsPacketItems := by
    intro other member item ofItems
    rw [List.mem_singleton] at member
    subst member
    rw [List.mem_singleton] at ofItems
    subst ofItems
    decide
  have drawn : ∀ given ∈ calls ++ [.receive first], Drawn [heap] given := by
    intro given member
    simp only [calls, List.cons_append, List.nil_append, List.mem_cons, List.not_mem_nil,
      or_false] at member
    rcases member with rfl | rfl | rfl
    · exact .wire List.mem_cons_self cut (by simp)
    · exact .wire List.mem_cons_self cut (by simp)
    · exact .wire List.mem_cons_self cut (by simp)
  obtain ⟨other, member, _, delivered, _⟩ :=
    (heap_told_sent (by simp) avoids (by simp [heap, Flavour.standard]) drawn).1 received told
  rw [List.mem_singleton] at member
  rwa [← member]

end Reassembler
end Spead
