import Spead.Proofs.Generator.Numbers
import Spead.Proofs.Reassembler.Delivery

/-!
Heaps that are handed out however often their numbers come again.

A reassembler that remembers less than a round of numbers takes every heap for a new one, and
hands out the heaps of a generator in their order, round after round.
-/

namespace Spead

/-! ## Delivery in order -/

/-- No pointer of the heap tells that the stream ends with it. -/
def Heap.Unmarked (heap : Heap) : Prop :=
  ∀ pointers payload, heap.layout = .ok (pointers, payload) →
    ∀ word ∈ pointers,
      heap.flavour.decodePointer word ≠ ⟨ItemId.streamControl, true, StreamControl.stop⟩

namespace Reassembler

/-- A fresh reassembler hands out the heaps one after the other, and tells nothing else. -/
def TellsInOrder
    (settings : ReassemblerSettings) (heaps : List Heap) (deliveries : List (List Packet)) :
    Prop :=
  ∃ told : List (List ReassemblyEvent),
    ((new settings).receiveAll (deliveries.flatten.map Packet.toBytes)).2 = told.map .ok ∧
    told.flatten =
      heaps.map fun heap => .heap ⟨heap.count, heap.flavour, heap.receivedItems⟩

theorem between_and_tellsInOrder
    {flavour : Flavour} {settings : ReassemblerSettings} {heaps : List Heap}
    {generator : Generator} {deliveries : List (List Packet)}
    (remembers : 1 ≤ settings.historyLength)
    (wraps : settings.historyLength < flavour.maxAddress)
    (produces : Generator.Produces flavour heaps generator)
    (receivable : ∀ heap ∈ heaps, heap.Receivable settings)
    (arrive : List.Forall₂ Heap.ArrivesIn heaps deliveries) :
    ((new settings).receiveAll (deliveries.flatten.map Packet.toBytes)).1.Between
      (new settings).settings (heaps.map Heap.count) ∧
    TellsInOrder settings heaps deliveries := by
  induction produces generalizing deliveries with
  | nothing =>
      cases arrive
      exact ⟨between_new settings, [], rfl, rfl⟩
  | @next heaps generator next heap before gives inductionHypothesis =>
      obtain ⟨earlier, last, rfl, arriveEarlier, arrives⟩ := exists_concat_of_forall₂ arrive
      rw [List.forall_mem_append] at receivable
      obtain ⟨between, told, answers, flatten⟩ := inductionHypothesis receivable.1 arriveEarlier
      have takes : heap.Receivable (new settings).settings := by
        obtain ⟨avoids, compat, size, unmarked⟩ := receivable.2 heap (by simp)
        exact ⟨avoids, compat, size, unmarked⟩
      have fresh := before.numbered.fresh gives.numbers wraps
      obtain ⟨betweenNow, toldNow, answersNow, flattenNow⟩ :=
        between.deliver arrives takes (Nat.le_max_left _ _) remembers fresh
      have whole := receiveAll_append (new settings) (earlier.flatten.map Packet.toBytes)
        (last.map Packet.toBytes)
      rw [← List.map_append] at whole
      have arrivals : (earlier ++ [last]).flatten = earlier.flatten ++ last := by simp
      constructor
      · rw [arrivals, whole, List.map_append, List.map_singleton]
        exact betweenNow
      · refine ⟨told ++ toldNow, ?_, ?_⟩
        · rw [arrivals, whole, answers, answersNow, List.map_append]
        · rw [List.flatten_append, flatten, flattenNow, List.map_append, List.map_singleton]

/-- The numbers of the heaps of a generator lie within a round, and come again only after a round.
Heaps that are delivered one after the other are all handed out in their order, however many
rounds they take, if the reassembler remembers less than a round. -/
theorem told_in_order_over_rounds
    {flavour : Flavour} {heaps : List Heap} {generator : Generator}
    (produces : Generator.Produces flavour heaps generator) :
    (∀ heap ∈ heaps, 1 ≤ heap.count ∧ heap.count ≤ flavour.maxAddress) ∧
    (∀ before window behind, heaps = before ++ window ++ behind →
      window.length ≤ flavour.maxAddress → (window.map Heap.count).Nodup) ∧
    ∀ (settings : ReassemblerSettings) (deliveries : List (List Packet)),
      flavour.compat = settings.compat → 1 ≤ settings.historyLength →
      settings.historyLength < flavour.maxAddress →
      (∀ heap ∈ heaps, heap.payloadLength ≤ settings.maxHeapSize ∧ heap.Unmarked ∧
        heap.AvoidsPacketItems) →
      List.Forall₂ Heap.ArrivesIn heaps deliveries → TellsInOrder settings heaps deliveries := by
  have numbered := produces.numbered
  refine ⟨numbered.count_bounds, fun before window behind => numbered.nodup_counts, ?_⟩
  intro settings deliveries compat remembers wraps fit arrive
  have receivable : ∀ heap ∈ heaps, heap.Receivable settings := by
    intro heap member
    obtain ⟨size, unmarked, avoids⟩ := fit heap member
    refine ⟨avoids, ?_, size, unmarked⟩
    rw [numbered.heapFlavour heap member, compat]
  exact (between_and_tellsInOrder remembers wraps produces receivable arrive).2

/-- Heaps that mark the start of the stream, over and over. -/
def startHeaps (flavour : Flavour) (made : Nat) : List Heap :=
  (List.range made).map fun place =>
    (Heap.mk (Generator.countAt flavour place) flavour []).addStart

theorem produces_startHeaps (flavour : Flavour) (made : Nat) :
    ∃ generator, Generator.Produces flavour (startHeaps flavour made) generator ∧
      generator.exhausted = false := by
  induction made with
  | zero => exact ⟨_, .nothing, rfl⟩
  | succ made inductionHypothesis =>
      obtain ⟨generator, produces, running⟩ := inductionHypothesis
      have numbered := produces.numbered
      have count : generator.nextCount = Generator.countAt flavour made := by
        rw [numbered.nextCount, startHeaps, List.length_map, List.length_range]
      have given : ∃ next : Generator, generator.startHeap =
          .ok ((Heap.mk (Generator.countAt flavour made) flavour []).addStart, next) ∧
            next.exhausted = false := by
        unfold Generator.startHeap Generator.takeCount
        rw [running, count, numbered.sameFlavour]
        exact ⟨_, rfl, rfl⟩
      obtain ⟨next, started, runningNext⟩ := given
      refine ⟨next, ?_, runningNext⟩
      rw [startHeaps, List.range_succ, List.map_append, List.map_singleton]
      exact produces.next (.start started)

/-- Two rounds of numbers, and some of the third. -/
theorem told_in_order_over_rounds_twice :
    let narrow : Flavour := { addressBits := 8 }
    let heaps := startHeaps narrow 520
    TellsInOrder { historyLength := 254 } heaps
      (heaps.map fun heap => (heap.packets 100).toOption.getD []) := by
  intro narrow heaps
  obtain ⟨generator, produces, _⟩ := produces_startHeaps narrow 520
  obtain ⟨_, _, inOrder⟩ := told_in_order_over_rounds produces
  apply inOrder _ _ rfl (by decide) (by decide)
  · intro heap member
    obtain ⟨made, _, rfl⟩ := List.mem_map.1 member
    refine ⟨Nat.zero_le _, ?_, ?_⟩
    · have layout :
          (Heap.mk 0 narrow []).addStart.layout = .ok ([0x8000000000000600], []) := by
        decide +kernel
      rintro pointers payload found
      change (Heap.mk 0 narrow []).addStart.layout = _ at found
      rw [layout] at found
      cases found
      rw [List.forall_mem_singleton]
      change narrow.decodePointer _ ≠ _
      decide +kernel
    · simp [Heap.AvoidsPacketItems, Heap.addStart, Heap.addInline, Heap.add, ItemId.streamControl,
        ItemId.payloadLength]
  · have cut : ∀ heap ∈ heaps,
        heap.packets 100 = .ok ((heap.packets 100).toOption.getD []) := by
      decide +kernel
    rw [List.forall₂_map_right_iff, List.forall₂_same]
    exact fun heap member => Heap.arrivesIn_of_packets (cut heap member)

/-- Heaps have to avoid the items of packets. An item with the id of the number of heaps, which no
checked descriptor has, is taken for that number. -/
theorem packet_item_taken_for_count :
    ¬ ∀ (flavour : Flavour) (heaps : List Heap) (generator : Generator)
        (settings : ReassemblerSettings) (deliveries : List (List Packet)),
      Generator.Produces flavour heaps generator → flavour.compat = settings.compat →
      1 ≤ settings.historyLength → settings.historyLength < flavour.maxAddress →
      (∀ heap ∈ heaps, heap.payloadLength ≤ settings.maxHeapSize ∧ heap.Unmarked) →
      List.Forall₂ Heap.ArrivesIn heaps deliveries →
        TellsInOrder settings heaps deliveries := by
  intro always
  let descriptor : Descriptor := ⟨ItemId.heapCount, "a", "", [], .elements .uint8 .rowMajor⟩
  let five : Value := ⟨[], .elements (.ofWords ElementType.uint8.toElement [5])⟩
  let group : Group := Group.empty.insert descriptor (some five)
  let heap : Heap := ⟨1, .standard, [⟨ItemId.heapCount, .bytes [5] true⟩]⟩
  let packet : Packet := ⟨1, 0, 0, 0, 40, [0x8000010000000005], []⟩
  have layout : heap.layout = .ok ([0x8000010000000005], []) := by decide +kernel
  have cut : heap.packets 100 = .ok [packet] := by decide +kernel
  have unmarked : heap.Unmarked := by
    rintro pointers payload found
    rw [layout] at found
    cases found
    rw [List.forall_mem_singleton]
    decide +kernel
  obtain ⟨next, made⟩ :
      ∃ next, Generator.heap { flavour := .standard } group .none .all = .ok (heap, next) :=
    ⟨_, rfl⟩
  have produces : Generator.Produces .standard [heap] next := .next .nothing (.ofGroup made)
  obtain ⟨told, answers, flatten⟩ :=
    always .standard [heap] next {} [[packet]] produces rfl (by decide) (by decide)
      (by simpa using ⟨by decide +kernel, unmarked⟩)
      (.cons (Heap.arrivesIn_of_packets cut) .nil)
  have renumbered :
      ((new {}).receiveAll [packet.toBytes]).2 = [.ok [.heap ⟨5, .standard, []⟩]] := by
    decide +kernel
  have same : ((new {}).receiveAll [packet.toBytes]).2 = told.map .ok := answers
  rw [renumbered] at same
  obtain ⟨events, rfl, handedOut⟩ := List.map_eq_singleton_iff.1 same.symm
  cases handedOut
  rw [List.flatten_singleton, List.map_singleton, List.cons.injEq] at flatten
  have count : (5 : Nat) = heap.count := by
    injection flatten.1 with received
    exact congrArg ReceivedHeap.count received
  exact absurd count (by decide)

end Reassembler

end Spead
