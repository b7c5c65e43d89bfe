import Spead.Proofs.Heap.Cutting
import Spead.Proofs.Heap.Resolving
import Spead.Proofs.Reassembler.Effects

/-!
The mark of the end of the stream.

Three parties take a heap for the last one of the stream: its sender by an inline item, a
reassembler by any pointer of a packet, long before the heap is complete, and whoever gets the
complete heap by the first immediate item of stream control. What all of them look at are the
signals of the heap, the values that its items of stream control bring to their pointers.
-/

namespace Spead

/-! ## Signals -/

/-- The value of a pointer that is stream control itself. -/
def Pointer.signal? (pointer : Pointer) : Option Nat :=
  if pointer.id = ItemId.streamControl && pointer.immediate then some pointer.value else none

/-- The value of a received item that is stream control and was held by its pointer. -/
def ReceivedItem.signal? (item : ReceivedItem) : Option Nat :=
  if item.id = ItemId.streamControl && item.immediate then some item.value else none

namespace HeapItem

/-- The number that an item puts into its pointer, if it travels there. -/
def pointerValue? (flavour : Flavour) (item : HeapItem) : Option Nat :=
  match item.content with
  | .inline value => some value
  | .bytes data allowImmediate =>
      if allowImmediate && flavour.fitsImmediate data.length then
        some (Bytes.toNat data)
      else
        none

def signal? (flavour : Flavour) (item : HeapItem) : Option Nat :=
  if item.id = ItemId.streamControl then item.pointerValue? flavour else none

end HeapItem

theorem Pointer.signal?_eq_some_iff {pointer : Pointer} {value : Nat} :
    pointer.signal? = some value ↔ pointer = ⟨ItemId.streamControl, true, value⟩ := by
  rcases pointer with ⟨id, immediate, held⟩
  simp [Pointer.signal?, and_assoc]

namespace Heap

/-- What the heap says about the stream, in the order of its items. -/
def signals (heap : Heap) : List Nat :=
  heap.items.filterMap (HeapItem.signal? heap.flavour)

/-- The sender signals the end by an inline item. -/
theorem mem_signals_of_isEndOfStream {heap : Heap} (marked : heap.isEndOfStream = true) :
    StreamControl.stop ∈ heap.signals := by
  rw [isEndOfStream, List.contains_iff_mem] at marked
  exact List.mem_filterMap.2 ⟨_, marked, rfl⟩

theorem signal?_place (flavour : Flavour) (address : Nat) (item : HeapItem) :
    (place flavour address item).1.signal? = item.signal? flavour := by
  rcases item with ⟨id, content⟩
  unfold place Pointer.signal? HeapItem.signal? HeapItem.pointerValue?
  cases content with
  | inline value => simp
  | bytes data allowImmediate =>
      dsimp only
      split <;> simp

theorem filterMap_signal?_placeAll (flavour : Flavour) (address : Nat) (items : List HeapItem) :
    (placeAll flavour address items).filterMap (fun entry => entry.1.signal?) =
      items.filterMap (HeapItem.signal? flavour) := by
  induction items generalizing address with
  | nil => rfl
  | cons item rest inductionHypothesis =>
      simp only [placeAll, List.filterMap_cons]
      rw [signal?_place, inductionHypothesis]

/-- A receiver reads the value of a pointer off the bytes of its value field. -/
theorem signal?_receivedItem
    {flavour : Flavour} {entry : Pointer × Bytes}
    (fits : entry.1.value ≤ flavour.maxAddress) :
    (receivedItem flavour entry).signal? = entry.1.signal? := by
  rcases entry with ⟨⟨id, immediate, value⟩, data⟩
  unfold receivedItem ReceivedItem.signal? Pointer.signal? ReceivedItem.value
  cases immediate with
  | false => simp
  | true =>
      have small : value < 256 ^ flavour.addressBytes := by
        rw [Flavour.pow_addressBytes]
        exact flavour.maxAddress_lt fits
      simp [Flavour.immediateBytes, Bytes.toNat_bigEndian_of_lt small]

section LaidOut

variable {heap : Heap} {pointers : List UInt64} {payload : Bytes}

/-- The pointers of a layout say what the heap says. -/
theorem LaidOut.signals (laidOut : heap.LaidOut pointers payload) :
    (pointers.map heap.flavour.decodePointer).filterMap Pointer.signal? = heap.signals := by
  rw [laidOut.decode, List.filterMap_map, Heap.signals,
    ← filterMap_signal?_placeAll heap.flavour 0 heap.items]
  rfl

/-- The items that are found in a layout say what the heap says. -/
theorem LaidOut.received_signals (laidOut : heap.LaidOut pointers payload) :
    heap.receivedItems.filterMap ReceivedItem.signal? = heap.signals := by
  have named (item : ReceivedItem) :
      (if item.id ≠ ItemId.null then item.signal? else none) = item.signal? := by
    unfold ReceivedItem.signal?
    by_cases null : item.id = ItemId.null
    · simp [null, ItemId.null, ItemId.streamControl]
    · rw [if_pos null]
  calc heap.receivedItems.filterMap ReceivedItem.signal?
      = (heap.items.map (arrival heap.flavour)).filterMap ReceivedItem.signal? := by
        rw [receivedItems, List.filterMap_filter]
        simp only [decide_eq_true_eq, named]
    _ = (heap.placed.map (receivedItem heap.flavour)).filterMap ReceivedItem.signal? := by
        rw [placed, map_receivedItem_placeAll]
    _ = heap.placed.filterMap fun entry => entry.1.signal? := by
        rw [List.filterMap_map]
        apply List.filterMap_congr
        intro entry member
        exact signal?_receivedItem (laidOut.fits entry member).2
    _ = heap.signals := filterMap_signal?_placeAll heap.flavour 0 heap.items

end LaidOut

end Heap

/-! ## The parties -/

theorem Packet.carriesStop_iff (packet : Packet) :
    packet.carriesStop = true ↔
      StreamControl.stop ∈
        (packet.pointers.map (Pointer.ofWord packet.addressBits)).filterMap Pointer.signal? := by
  rw [carriesStop, List.any_eq_true, List.mem_filterMap]
  simp only [List.mem_map, exists_exists_and_eq_and, Pointer.signal?_eq_some_iff,
    decide_eq_true_eq]

theorem Heap.Cuts.carriesStop_iff {heap : Heap} {packet : Packet} (cuts : heap.Cuts packet) :
    packet.carriesStop = true ↔ StreamControl.stop ∈ heap.signals := by
  obtain ⟨pointers, payload, layout, carries⟩ := cuts.carries
  rw [packet.carriesStop_iff, carries.pointers, carries.addressBits,
    ← (Heap.laidOut_of_layout layout).signals]
  rfl

namespace Reassembler

theorem fst_call_receive (reassembler : Reassembler) (bytes : Bytes) :
    (reassembler.call (.receive bytes)).1 = (reassembler.insertBytes bytes).1 := by
  dsimp only [call]
  split
  · next same => rw [same]
  · next same => rw [same]

/-- A running reassembler that does not remember the heap as finished is stopped by a packet of it,
whichever this is, if the heap signals the end anywhere. -/
theorem stopped_insertBytes_iff
    {reassembler : Reassembler} (coherent : reassembler.Coherent)
    (running : reassembler.stopped = false) {heap : Heap} (avoids : heap.AvoidsPacketItems)
    (fresh : reassembler.fate? heap.count = none) {packet : Packet} (cuts : heap.Cuts packet) :
    (reassembler.insertBytes packet.toBytes).1.stopped = true ↔
      StreamControl.stop ∈ heap.signals := by
  have brought : (Call.receive packet.toBytes).packet? = some packet := by
    rw [Call.packet?, cuts.parse avoids]
    rfl
  rw [← cuts.heapCount] at fresh
  rw [← fst_call_receive, stopped_call coherent, endsStream_of_packet? brought,
    cuts.carriesStop_iff]
  simp [running, fresh]

end Reassembler

theorem ReceivedHeap.control?_eq_head? (heap : ReceivedHeap) :
    heap.control? = (heap.items.filterMap ReceivedItem.signal?).head? := by
  unfold control?
  induction heap.items with
  | nil => rfl
  | cons item rest inductionHypothesis =>
      by_cases control : (item.id = ItemId.streamControl && item.immediate) = true
      · have signal : item.signal? = some item.value := by
          rw [ReceivedItem.signal?, if_pos control]
        rw [List.find?_cons_of_pos (by exact control), List.filterMap_cons_some signal]
        rfl
      · have silent : item.signal? = none := by rw [ReceivedItem.signal?, if_neg control]
        rw [List.find?_cons_of_neg (by exact control), List.filterMap_cons_none silent,
          inductionHypothesis]

theorem ReceivedHeap.isEndOfStream_iff
    {heap : Heap} {pointers : List UInt64} {payload : Bytes}
    (laidOut : heap.LaidOut pointers payload) :
    (ReceivedHeap.mk heap.count heap.flavour heap.receivedItems).isEndOfStream = true ↔
      heap.signals.head? = some StreamControl.stop := by
  rw [isEndOfStream, control?_eq_head?, decide_eq_true_eq, laidOut.received_signals]

/-! ## Agreement -/

/-- A heap is taken for the last one of the stream by all parties or by none: by its sender, by a
fresh reassembler that gets any one of the packets, and by whoever gets the complete heap. -/
def EndsAlike
    (heap : Heap) (packets : List Packet) (received : ReceivedHeap)
    (settings : ReassemblerSettings) : Prop :=
  (∀ packet ∈ packets,
    ((Reassembler.new settings).insertBytes packet.toBytes).1.stopped = true ↔
      heap.isEndOfStream = true) ∧
  (received.isEndOfStream = true ↔ heap.isEndOfStream = true)

/-- What the parties make of the signals of a heap. -/
structure EndMarked
    (heap : Heap) (packets : List Packet) (received : ReceivedHeap) : Prop where
  sent : packets ≠ []
  sender : heap.isEndOfStream = true → StreamControl.stop ∈ heap.signals
  /-- Every packet stops the reassembler if any of the signals is the end. -/
  reassembler : ∀ settings, ∀ packet ∈ packets,
    ((Reassembler.new settings).insertBytes packet.toBytes).1.stopped = true ↔
      StreamControl.stop ∈ heap.signals
  /-- Of the complete heap the first signal counts. -/
  application : received.isEndOfStream = true ↔ heap.signals.head? = some StreamControl.stop

namespace EndMarked

variable {heap : Heap} {packets : List Packet} {received : ReceivedHeap}

/-- The parties agree if the end, wherever it is signalled, is signalled first and inline too. -/
theorem endsAlike_iff (marked : EndMarked heap packets received) (settings : ReassemblerSettings) :
    EndsAlike heap packets received settings ↔
      (StreamControl.stop ∈ heap.signals →
        heap.signals.head? = some StreamControl.stop ∧ heap.isEndOfStream = true) := by
  constructor
  · rintro ⟨stops, sees⟩ signalled
    obtain ⟨packet, member⟩ := List.exists_mem_of_ne_nil _ marked.sent
    have isEnd :=
      (stops packet member).1 ((marked.reassembler settings packet member).2 signalled)
    exact ⟨marked.application.1 (sees.2 isEnd), isEnd⟩
  · intro first
    constructor
    · intro packet member
      rw [marked.reassembler settings packet member]
      exact ⟨fun signalled => (first signalled).2, marked.sender⟩
    · rw [marked.application]
      constructor
      · intro isFirst
        exact (first (List.mem_of_mem_head? isFirst)).2
      · intro isEnd
        exact (first (marked.sender isEnd)).1

end EndMarked

theorem Heap.endMarked_of_packets
    {heap : Heap} {maxPacketSize : Nat} {packets : List Packet}
    (avoids : heap.AvoidsPacketItems) (cut : heap.packets maxPacketSize = .ok packets) :
    EndMarked heap packets ⟨heap.count, heap.flavour, heap.receivedItems⟩ := by
  obtain ⟨pointers, payload, _, whole⟩ := cutInto_of_packets cut
  constructor
  case sent => exact whole.packets_ne_nil
  case sender => exact mem_signals_of_isEndOfStream
  case reassembler =>
    intro settings packet member
    exact Reassembler.stopped_insertBytes_iff (Reassembler.coherent_new settings) rfl avoids
      rfl ⟨_, packets, cut, member⟩
  case application => exact ReceivedHeap.isEndOfStream_iff (laidOut_of_layout whole.layout)

/-- Items of stream control that are inline and carry one value signal nothing else. -/
theorem Heap.eq_of_signal?
    {heap : Heap} {value : Nat}
    (uniform : ∀ item ∈ heap.items, item.id = ItemId.streamControl → item.content = .inline value)
    {item : HeapItem} (member : item ∈ heap.items) {signal : Nat}
    (signals : item.signal? heap.flavour = some signal) :
    signal = value ∧ item = ⟨ItemId.streamControl, .inline value⟩ := by
  rcases item with ⟨id, content⟩
  unfold HeapItem.signal? at signals
  split at signals
  · next control =>
      have inline := uniform _ member control
      dsimp only at control inline
      subst control inline
      exact ⟨(Option.some_inj.1 signals).symm, rfl⟩
  · cases signals

theorem EndMarked.endsAlike_of_uniform
    {heap : Heap} {packets : List Packet} {received : ReceivedHeap}
    (marked : EndMarked heap packets received) (settings : ReassemblerSettings) {value : Nat}
    (uniform :
      ∀ item ∈ heap.items, item.id = ItemId.streamControl → item.content = .inline value) :
    EndsAlike heap packets received settings := by
  rw [marked.endsAlike_iff]
  intro signalled
  have same : ∀ signal ∈ heap.signals, signal = value := by
    intro signal member
    obtain ⟨item, ofHeap, signals⟩ := List.mem_filterMap.1 member
    exact (Heap.eq_of_signal? uniform ofHeap signals).1
  obtain ⟨item, ofHeap, signals⟩ := List.mem_filterMap.1 signalled
  obtain ⟨isStop, rfl⟩ := Heap.eq_of_signal? uniform ofHeap signals
  rw [← isStop] at same ofHeap
  constructor
  · cases heard : heap.signals with
    | nil =>
        rw [heard] at signalled
        cases signalled
    | cons first rest =>
        rw [same first (by rw [heard]; exact List.mem_cons_self)]
        rfl
  · rw [Heap.isEndOfStream, List.contains_iff_mem]
    exact ofHeap

/-- The parties of a heap that can be cut into packets, and when they agree on whether the stream
ends with it. They do if its items of stream control are inline and carry one value. -/
theorem Heap.endMarked_of_packets_of_avoids
    {heap : Heap} {maxPacketSize : Nat} {packets : List Packet}
    (avoids : heap.AvoidsPacketItems) (cut : heap.packets maxPacketSize = .ok packets) :
    ∃ pointers payload received, heap.layout = .ok (pointers, payload) ∧
      ReceivedHeap.resolve heap.count heap.flavour pointers payload = .ok received ∧
      EndMarked heap packets received ∧
      (∀ settings, EndsAlike heap packets received settings ↔
        (StreamControl.stop ∈ heap.signals →
          heap.signals.head? = some StreamControl.stop ∧ heap.isEndOfStream = true)) ∧
      ∀ settings value,
        (∀ item ∈ heap.items, item.id = ItemId.streamControl → item.content = .inline value) →
        EndsAlike heap packets received settings := by
  obtain ⟨pointers, payload, _, whole⟩ := cutInto_of_packets cut
  have marked := endMarked_of_packets avoids cut
  exact ⟨pointers, payload, _, whole.layout, (laidOut_of_layout whole.layout).resolve, marked,
    marked.endsAlike_iff, fun settings _ uniform => marked.endsAlike_of_uniform settings uniform⟩

/-- A heap that tells of the start of the stream before it tells of the end. -/
def startThenEnd : Heap where
  count := 7
  flavour := .standard
  items := [
    ⟨ItemId.streamControl, .inline StreamControl.start⟩,
    ⟨ItemId.streamControl, .inline StreamControl.stop⟩,
    ⟨0x1000, .bytes [5] true⟩]

theorem avoidsPacketItems_startThenEnd : startThenEnd.AvoidsPacketItems := by
  unfold Heap.AvoidsPacketItems
  decide

theorem exists_packets_startThenEnd : ∃ packets, startThenEnd.packets 1000 = .ok packets :=
  ⟨_, rfl⟩

theorem endMarked_startThenEnd :
    startThenEnd.AvoidsPacketItems ∧
      ∃ packets, startThenEnd.packets 1000 = .ok packets ∧
        ∃ received, EndMarked startThenEnd packets received ∧
          startThenEnd.isEndOfStream = true ∧ received.isEndOfStream = false := by
  obtain ⟨packets, cut⟩ := exists_packets_startThenEnd
  obtain ⟨_, _, received, _, _, marked, _⟩ :=
    startThenEnd.endMarked_of_packets_of_avoids avoidsPacketItems_startThenEnd cut
  refine ⟨avoidsPacketItems_startThenEnd, packets, cut, received, marked, by decide, ?_⟩
  rw [← Bool.not_eq_true, marked.application]
  decide

/-- Parties that have got a heap whole need not agree on whether the stream ends with it. -/
theorem not_forall_endsAlike :
    ¬ ∀ (heap : Heap) (settings : ReassemblerSettings) (maxPacketSize : Nat)
        (packets : List Packet) (pointers : List UInt64) (payload : Bytes)
        (received : ReceivedHeap),
      heap.AvoidsPacketItems → heap.flavour.compat = settings.compat →
      heap.packets maxPacketSize = .ok packets → heap.layout = .ok (pointers, payload) →
      payload.length ≤ settings.maxHeapSize →
      ReceivedHeap.resolve heap.count heap.flavour pointers payload = .ok received →
      EndsAlike heap packets received settings := by
  intro always
  obtain ⟨packets, cut⟩ := exists_packets_startThenEnd
  have marked := Heap.endMarked_of_packets avoidsPacketItems_startThenEnd cut
  have layout : startThenEnd.layout = .ok
      ([0x8000060000000000, 0x8000060000000002, 0x8010000000000005], []) := by
    decide
  have resolved := (Heap.laidOut_of_layout layout).resolve
  have alike := always startThenEnd {} 1000 packets _ [] _ avoidsPacketItems_startThenEnd rfl cut
    layout (Nat.zero_le _) resolved
  have first := (marked.endsAlike_iff {}).1 alike (by decide)
  exact absurd first.1 (by decide)

/-- A heap that tells of the end of the stream by an item of one byte. -/
def endAsByte : Heap where
  count := 7
  flavour := .standard
  items := [
    ⟨ItemId.streamControl, .bytes [2] true⟩,
    ⟨0x1000, .bytes [5] true⟩]

example : endAsByte.signals.head? = some StreamControl.stop ∧ endAsByte.isEndOfStream = false := by
  decide

end Spead
