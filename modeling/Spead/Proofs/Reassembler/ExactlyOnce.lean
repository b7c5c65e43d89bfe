import Spead.Proofs.Reassembler.Progress

/-!
Heaps that are all received once.

The packets of several heaps may come in any order, mixed up and any number of times, and a heap
may have been cut more than once. If all packets arrive, and there is room for the heaps that are
begun, then each heap is handed out once, at the packet that completes it, as it was laid out.
-/

namespace Spead
namespace Reassembler

/-- Insert packets as they came, one after the other, with the answer to each. -/
def receiveAll (reassembler : Reassembler) (wires : List Bytes) :
    Reassembler × List (Except PacketError (List ReassemblyEvent)) :=
  wires.foldl
    (fun (now, answers) bytes =>
      let (next, answer) := now.insertBytes bytes
      (next, answers ++ [answer]))
    (reassembler, [])

theorem receiveAll_append_singleton
    (reassembler : Reassembler) (wires : List Bytes) (bytes : Bytes) :
    reassembler.receiveAll (wires ++ [bytes]) =
      (((reassembler.receiveAll wires).1.insertBytes bytes).1,
        (reassembler.receiveAll wires).2 ++
          [((reassembler.receiveAll wires).1.insertBytes bytes).2]) := by
  simp [receiveAll]

theorem receiveAll_append (reassembler : Reassembler) (wires more : List Bytes) :
    reassembler.receiveAll (wires ++ more) =
      (((reassembler.receiveAll wires).1.receiveAll more).1,
        (reassembler.receiveAll wires).2 ++
          ((reassembler.receiveAll wires).1.receiveAll more).2) := by
  induction more using List.reverseRecOn with
  | nil => simp [receiveAll]
  | append_singleton more bytes inductionHypothesis =>
      rw [← List.append_assoc, receiveAll_append_singleton, inductionHypothesis,
        receiveAll_append_singleton, List.append_assoc]

/-- A packet of a heap is inserted as it was sent. -/
theorem insertBytes_toBytes
    (reassembler : Reassembler) {heap : Heap} {packet : Packet} (cuts : heap.Cuts packet)
    (avoids : heap.AvoidsPacketItems) :
    reassembler.insertBytes packet.toBytes =
      ((reassembler.insertPacket packet).1, .ok (reassembler.insertPacket packet).2) := by
  simp only [insertBytes, cuts.parse avoids]

/-! ## Runs -/

/-- A reassembler that holds no incomplete heap and has not seen the end of the stream. -/
structure Waiting (reassembler : Reassembler) : Prop where
  heaps : reassembler.heaps = {}
  running : reassembler.stopped = false
  coherent : reassembler.Coherent

theorem waiting_new (settings : ReassemblerSettings) : (new settings).Waiting :=
  ⟨rfl, rfl, coherent_new settings⟩

section Runs

variable {start : Reassembler} {sent : List Heap} {arrivals : List Packet}

theorem progress_nil
    (waiting : start.Waiting) (fits : start.history.length ≤ start.settings.historyLength) :
    start.Progress sent [] [] start where
  coherent := waiting.coherent
  running := waiting.running
  settings := rfl
  made := by
    intro heap _ opened
    exact absurd opened.1 heap.not_begunBy_nil
  open_of_get? := by simp [waiting.heaps]
  history := by simp [List.rtake, fits]
  distinct := List.nodup_nil
  mem_done := by
    intro heap
    have uncovered : ¬ heap.CoveredBy [] := fun covered => heap.not_begunBy_nil covered.1
    simp [uncovered]

/-- What a run has told: the answers, packet by packet, with the heaps that are done. -/
structure Tells
    (sent : List Heap) (arrivals : List Packet) (done : List Heap)
    (answers : List (Except PacketError (List ReassemblyEvent)))
    (told : List (List ReassemblyEvent)) : Prop where
  answers : answers = told.map .ok
  length : told.length = arrivals.length
  flatten : told.flatten = (done.filterMap Heap.delivered?).map .heap
  at_packet : ∀ before packet behind, arrivals = before ++ packet :: behind →
    ∃ heap ∈ sent, heap.Cuts packet ∧
      told[before.length]? =
        some (((completedWith heap before packet).filterMap Heap.delivered?).map .heap)

theorem progress_receiveAll
    (waiting : start.Waiting) (fits : start.history.length ≤ start.settings.historyLength)
    (promises : start.Promises sent)
    (drawn : ∀ packet ∈ arrivals, ∃ heap ∈ sent, heap.Cuts packet)
    (room : ∀ before, before <+: arrivals →
      (sent.filter fun heap => heap.OpenAfter before).length ≤ start.settings.maxHeaps) :
    ∃ done told,
      start.Progress sent arrivals done (start.receiveAll (arrivals.map Packet.toBytes)).1 ∧
      Tells sent arrivals done (start.receiveAll (arrivals.map Packet.toBytes)).2 told := by
  -- What has arrived grows at its end, and `Progress` speaks of all of it.
  induction arrivals using List.reverseRecOn with
  | nil => exact ⟨[], [], progress_nil waiting fits, rfl, rfl, rfl, by simp⟩
  | append_singleton arrived packet inductionHypothesis =>
      have drawnBefore : ∀ other ∈ arrived, ∃ heap ∈ sent, heap.Cuts other := by
        intro other member
        exact drawn other (List.mem_append_left _ member)
      obtain ⟨done, told, progress, tells⟩ := inductionHypothesis drawnBefore (by
        intro before isPrefix
        exact room before (isPrefix.trans (List.prefix_append arrived [packet])))
      obtain ⟨heap, member, cuts⟩ := drawn packet (by simp)
      have avoids := (promises.receivable heap member).avoids
      obtain ⟨next, events⟩ :=
        progress.of_inserts promises member cuts drawnBefore (room _ List.prefix_rfl)
          (inserts_insertPacket progress.coherent packet)
      rw [List.map_append, List.map_singleton, receiveAll_append_singleton,
        insertBytes_toBytes _ cuts avoids]
      refine ⟨_, told ++ [((completedWith heap arrived packet).filterMap Heap.delivered?).map .heap],
        next, ?_⟩
      constructor
      case answers =>
        rw [tells.answers, List.map_append, List.map_singleton, events]
      case length => simp [tells.length]
      case flatten =>
        rw [List.flatten_append, tells.flatten, List.flatten_singleton]
        simp
      case at_packet =>
        intro before last behind split
        rcases List.eq_nil_or_concat behind with rfl | ⟨rest, other, rfl⟩
        · obtain ⟨rfl, same⟩ := List.append_inj' split rfl
          cases same
          refine ⟨heap, member, cuts, ?_⟩
          rw [← tells.length, List.getElem?_concat_length]
        · rw [List.concat_eq_append, ← List.cons_append, ← List.append_assoc] at split
          obtain ⟨rfl, _⟩ := List.append_inj' split rfl
          obtain ⟨source, ofSent, sourceCuts, found⟩ := tells.at_packet before last rest rfl
          refine ⟨source, ofSent, sourceCuts, ?_⟩
          rw [List.getElem?_append_left, found]
          rw [tells.length]
          simp

end Runs

/-- Packets of several heaps come in any order, mixed up and repeated. None of them is refused.
Each heap is handed out once, as it was laid out, in the answer to the packet that completes it,
and nothing else is told. -/
theorem every_heap_told_once
    {settings : ReassemblerSettings} {sent : List Heap} {arrivals : List Packet}
    (distinct : (sent.map Heap.count).Nodup)
    (receivable : ∀ heap ∈ sent, heap.Receivable settings)
    (drawn : ∀ packet ∈ arrivals, ∃ heap ∈ sent, heap.Cuts packet)
    (covered : ∀ heap ∈ sent, heap.CoveredBy arrivals)
    (remembered : sent.length ≤ settings.historyLength)
    (room : ∀ before, before <+: arrivals →
      (sent.filter fun heap => heap.OpenAfter before).length ≤ max 1 settings.maxHeaps) :
    ∃ told : List (List ReassemblyEvent),
      ((new settings).receiveAll (arrivals.map Packet.toBytes)).2 = told.map .ok ∧
      told.flatten.Perm ((sent.filterMap Heap.delivered?).map .heap) ∧
      (∀ heap ∈ sent, heap.delivered?.isSome) ∧
      ∀ before packet behind, arrivals = before ++ packet :: behind →
        ∃ heap ∈ sent, ∃ received, heap.Cuts packet ∧ heap.delivered? = some received ∧
          told[before.length]? =
            some (if heap.CompletedBy before packet then [.heap received] else []) := by
  have promises : (new settings).Promises sent := by
    constructor
    case distinct => exact distinct
    case receivable =>
      intro heap member
      obtain ⟨avoids, compat, size, unmarked⟩ := receivable heap member
      exact ⟨avoids, compat, size, unmarked⟩
    case fresh => simp [new]
    case remembered => exact remembered
  obtain ⟨done, told, progress, tells⟩ :=
    progress_receiveAll (waiting_new settings) (Nat.zero_le _) promises drawn room
  have delivered {heap : Heap} {packet : Packet} (cuts : heap.Cuts packet) :
      ∃ received, heap.delivered? = some received := by
    obtain ⟨_, _, layout, _⟩ := cuts.carries
    exact ⟨_, Heap.delivered?_of_layout layout⟩
  have allDone : done.Perm sent := by
    apply (List.perm_ext_iff_of_nodup progress.distinct (.of_map _ distinct)).2
    intro heap
    rw [progress.mem_done]
    exact ⟨And.left, fun member => ⟨member, covered heap member⟩⟩
  refine ⟨told, tells.answers, ?_, ?_, ?_⟩
  · rw [tells.flatten]
    exact (allDone.filterMap _).map _
  · intro heap member
    obtain ⟨packet, ofShare⟩ := List.exists_mem_of_ne_nil _ (covered heap member).1
    rw [Heap.share, List.mem_filter, decide_eq_true_eq] at ofShare
    obtain ⟨source, ofSent, sourceCuts⟩ := drawn packet ofShare.1
    have cuts := Heap.cuts_of_heapCount distinct member ofSent sourceCuts ofShare.2
    exact Option.isSome_iff_exists.2 (delivered cuts)
  · intro before packet behind split
    obtain ⟨heap, member, cuts, found⟩ := tells.at_packet before packet behind split
    obtain ⟨received, isDelivered⟩ := delivered cuts
    refine ⟨heap, member, received, cuts, isDelivered, ?_⟩
    rw [found, completedWith]
    split
    · simp [isDelivered]
    · rfl

/-- A heap in two packets, the second of which comes twice, with an empty heap in between. -/
theorem every_heap_told_once_two_heaps :
    let heap : Heap := ⟨7, .standard, [⟨ItemId.firstUser, .bytes [1, 2, 3] false⟩]⟩
    let empty : Heap := ⟨8, .standard, []⟩
    ∃ first second only, heap.packets 50 = .ok [first, second] ∧ empty.packets 50 = .ok [only] ∧
      ∃ told : List (List ReassemblyEvent),
        ((new {}).receiveAll ([second, only, second, first].map Packet.toBytes)).2 =
          told.map .ok ∧
        told.flatten.Perm (([heap, empty].filterMap Heap.delivered?).map .heap) := by
  intro heap empty
  let pointers : List UInt64 := [0x0010000000000000]
  let first := heap.slicePacket pointers [1, 2, 3] 2 0 [1, 2]
  let second := heap.slicePacket pointers [1, 2, 3] 2 1 [3]
  let only := empty.slicePacket [] [] 10 0 []
  have cut : heap.packets 50 = .ok [first, second] := by
    simp only [heap, first, second, pointers]
    rfl
  have cutEmpty : empty.packets 50 = .ok [only] := by
    simp only [empty, only]
    rfl
  have layout : heap.layout = .ok (pointers, [1, 2, 3]) := by
    simp only [heap, pointers]
    rfl
  have layoutEmpty : empty.layout = .ok ([], []) := rfl
  have receivable : ∀ sent ∈ [heap, empty], sent.Receivable {} := by
    intro sent member
    simp only [List.mem_cons, List.not_mem_nil, or_false] at member
    rcases member with rfl | rfl
    · constructor
      case avoids =>
        intro item ofItems
        rw [List.mem_singleton] at ofItems
        subst ofItems
        decide
      case compat => rfl
      case size =>
        rw [Heap.payloadLength_of_layout layout]
        decide
      case unmarked =>
        intro _ _ same
        rw [layout] at same
        cases same
        intro word ofTable
        rw [List.mem_singleton] at ofTable
        subst ofTable
        decide
    · constructor
      case avoids => simp [Heap.AvoidsPacketItems, empty]
      case compat => rfl
      case size =>
        rw [Heap.payloadLength_of_layout layoutEmpty]
        decide
      case unmarked =>
        intro _ _ same
        rw [layoutEmpty] at same
        cases same
        simp
  have drawn :
      ∀ packet ∈ [second, only, second, first], ∃ sent ∈ [heap, empty], sent.Cuts packet := by
    intro packet member
    simp only [List.mem_cons, List.not_mem_nil, or_false] at member
    rcases member with rfl | rfl | rfl | rfl
    · exact ⟨heap, by simp, 50, _, cut, by simp⟩
    · exact ⟨empty, by simp, 50, _, cutEmpty, by simp⟩
    · exact ⟨heap, by simp, 50, _, cut, by simp⟩
    · exact ⟨heap, by simp, 50, _, cut, by simp⟩
  have covered : ∀ sent ∈ [heap, empty], sent.CoveredBy [second, only, second, first] := by
    simp only [heap, empty, first, second, only, pointers]
    decide
  have room :
      ∀ before, before <+: [second, only, second, first] →
        ([heap, empty].filter fun sent => sent.OpenAfter before).length ≤ max 1 4 := by
    intro before _
    exact (List.length_filter_le _ _).trans (by decide)
  obtain ⟨told, answers, perm, _⟩ :=
    every_heap_told_once (by simp [heap, empty]) receivable drawn covered (by decide) room
  exact ⟨first, second, only, cut, cutEmpty, told, answers, perm⟩

end Reassembler
end Spead
