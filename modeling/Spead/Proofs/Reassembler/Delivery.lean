import Spead.Proofs.Reassembler.ExactlyOnce

/-!
Heaps that are delivered one after the other.

A reassembler that waits takes the packets of one heap in any order, and repeated. It hands out
the heap, waits again, and remembers the number of the heap as the last one of its history.
-/

namespace Spead

/-- All packets of one cut of the heap arrive, and none that is not a packet of the heap. -/
structure Heap.ArrivesIn (heap : Heap) (arrivals : List Packet) : Prop where
  drawn : ∀ packet ∈ arrivals, heap.Cuts packet
  whole : ∃ maxPacketSize packets, heap.packets maxPacketSize = .ok packets ∧
    ∀ packet ∈ packets, packet ∈ arrivals

theorem Heap.arrivesIn_of_packets
    {heap : Heap} {maxPacketSize : Nat} {packets : List Packet}
    (cut : heap.packets maxPacketSize = .ok packets) : heap.ArrivesIn packets where
  drawn := fun _ member => ⟨maxPacketSize, packets, cut, member⟩
  whole := ⟨maxPacketSize, packets, cut, fun _ => id⟩

theorem Heap.ArrivesIn.coveredBy
    {heap : Heap} {arrivals : List Packet} (arrives : heap.ArrivesIn arrivals) :
    heap.CoveredBy arrivals := by
  obtain ⟨_, packets, cut, complete⟩ := arrives.whole
  obtain ⟨pointers, payload, _, whole⟩ := cutInto_of_packets cut
  have ofShare : ∀ packet ∈ packets, packet ∈ heap.share arrivals := by
    intro packet member
    rw [share, List.mem_filter, decide_eq_true_eq]
    exact ⟨complete packet member, (whole.carries member).heapCount⟩
  constructor
  · obtain ⟨packet, member⟩ := List.exists_mem_of_ne_nil _ whole.packets_ne_nil
    exact List.ne_nil_of_mem (ofShare packet member)
  · intro position inside
    rw [payloadLength_of_layout whole.layout] at inside
    obtain ⟨packet, member, inSpan⟩ := whole.covers inside
    exact ⟨packet, ofShare packet member, inSpan⟩

theorem Heap.ArrivesIn.delivered?
    {heap : Heap} {arrivals : List Packet} (arrives : heap.ArrivesIn arrivals) :
    heap.delivered? = some ⟨heap.count, heap.flavour, heap.receivedItems⟩ := by
  obtain ⟨_, _, cut, _⟩ := arrives.whole
  obtain ⟨_, _, _, whole⟩ := cutInto_of_packets cut
  exact delivered?_of_layout whole.layout

namespace Reassembler

/-- A reassembler between two heaps, with the numbers of the heaps that it remembers. -/
structure Between
    (reassembler : Reassembler) (settings : ReassemblerSettings) (counts : List Nat) :
    Prop where
  waiting : reassembler.Waiting
  configured : reassembler.settings = settings
  history : reassembler.history = counts.rtake settings.historyLength

theorem between_new (settings : ReassemblerSettings) :
    (new settings).Between (new settings).settings [] where
  waiting := waiting_new settings
  configured := rfl
  history := by simp [new, List.rtake]

/-- One heap is delivered, and handed out once. -/
theorem Between.deliver
    {reassembler : Reassembler} {settings : ReassemblerSettings} {counts : List Nat}
    (between : reassembler.Between settings counts) {heap : Heap} {arrivals : List Packet}
    (arrives : heap.ArrivesIn arrivals) (receivable : heap.Receivable settings)
    (room : 1 ≤ settings.maxHeaps) (remembers : 1 ≤ settings.historyLength)
    (fresh : heap.count ∉ counts.rtake settings.historyLength) :
    (reassembler.receiveAll (arrivals.map Packet.toBytes)).1.Between settings
      (counts ++ [heap.count]) ∧
    ∃ told : List (List ReassemblyEvent),
      (reassembler.receiveAll (arrivals.map Packet.toBytes)).2 = told.map .ok ∧
      told.flatten = [.heap ⟨heap.count, heap.flavour, heap.receivedItems⟩] := by
  obtain ⟨waiting, rfl, history⟩ := between
  have fits : reassembler.history.length ≤ reassembler.settings.historyLength := by
    have length := congrArg List.length history
    rw [List.rtake, List.length_drop] at length
    omega
  have promises : reassembler.Promises [heap] := by
    constructor
    case distinct => simp
    case receivable => simpa using receivable
    case fresh =>
      rw [history]
      simpa using fresh
    case remembered => exact remembers
  obtain ⟨done, told, progress, tells⟩ :=
    progress_receiveAll waiting fits promises (fun packet member =>
      ⟨heap, by simp, arrives.drawn packet member⟩) (by
      intro before _
      have atMost := List.length_filter_le (fun heap : Heap => decide (heap.OpenAfter before)) [heap]
      exact atMost.trans room)
  have covered := arrives.coveredBy
  have allDone : done = [heap] := by
    have perm : done.Perm [heap] := by
      apply (List.perm_ext_iff_of_nodup progress.distinct (by simp)).2
      intro other
      rw [progress.mem_done]
      constructor
      · exact And.left
      · intro member
        rw [List.mem_singleton.1 member]
        exact ⟨by simp, covered⟩
    exact List.perm_singleton.1 perm
  have noneOpen : ∀ count, (reassembler.receiveAll (arrivals.map Packet.toBytes)).1.heaps.get? count =
      none := by
    intro count
    rw [Option.eq_none_iff_forall_ne_some]
    intro held found
    obtain ⟨other, member, _, opened⟩ := progress.open_of_get? count held found
    rw [List.mem_singleton.1 member] at opened
    exact opened.2 covered
  constructor
  · constructor
    case waiting => exact ⟨Table.eq_empty_of_get? noneOpen, progress.running, progress.coherent⟩
    case configured => exact progress.settings
    case history =>
      rw [progress.history, allDone, history]
      exact rtake_rtake_append counts heap.count _
  · refine ⟨told, tells.answers, ?_⟩
    rw [tells.flatten, allDone, List.filterMap_cons_some arrives.delivered?]
    rfl

end Reassembler
end Spead
