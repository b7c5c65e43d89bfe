import Spead.Reassembler.Partial
import Spead.Reassembler.Stats

/-!
Putting packets back together into heaps, within bounds on memory.

Packets come in any order and any number of times. A bounded number of heaps is kept while they
are incomplete; a further one drives out the oldest. The heaps finished last are remembered, so
that late packets do not begin them again. A packet with the mark of the end of the stream gives
up all incomplete heaps, and nothing is accepted after it.
-/

namespace Spead

inductive Fate where
  | complete
  | abandoned
  deriving DecidableEq, Repr

inductive HeapState where
  | unseen
  | assembling
  | finished (fate : Fate)
  deriving DecidableEq, Repr

/-- What a reassembler has to tell. -/
inductive ReassemblyEvent where
  | heap (heap : ReceivedHeap)
  | dropped (cause : ReassemblyError)
  /-- Nothing follows. -/
  | endOfStream
  deriving DecidableEq, Repr

structure ReassemblerSettings where
  /-- How many incomplete heaps are kept. -/
  maxHeaps : Nat := 4
  compat : Compat := .none
  /-- How many finished heaps are remembered. -/
  historyLength : Nat := 64
  /-- The longest payload that a heap may have. -/
  maxHeapSize : Nat := 2 ^ 26
  deriving DecidableEq, Repr

structure Reassembler where
  settings : ReassemblerSettings
  /-- The incomplete heaps, by number. -/
  heaps : Table Nat PartialHeap := {}
  /-- The numbers of the heaps finished last, the latest at the end. -/
  history : List Nat := []
  /-- How the heaps of the history ended. -/
  finished : Table Nat Fate := {}
  nextSequence : Nat := 0
  stopped : Bool := false
  offsets : OffsetTracker := {}
  stats : ReceiveStats := {}

namespace Reassembler

/-- A reassembler that has received nothing. At least one incomplete heap is kept. -/
def new (settings : ReassemblerSettings) : Reassembler where
  settings := { settings with maxHeaps := max 1 settings.maxHeaps }

def fate? (reassembler : Reassembler) (heapCount : Nat) : Option Fate :=
  reassembler.finished.get? heapCount

def heapState (reassembler : Reassembler) (heapCount : Nat) : HeapState :=
  if reassembler.heaps.contains heapCount then
    .assembling
  else
    match reassembler.fate? heapCount with
    | some fate => .finished fate
    | none => .unseen

def isIdle (reassembler : Reassembler) : Bool :=
  reassembler.heaps.entries.isEmpty

abbrev Step := Reassembler × List ReassemblyEvent

/-! ## How heaps end -/

/-- The history with one more heap at its end, unless it has the heap already. -/
def enqueue (reassembler : Reassembler) (heapCount : Nat) : List Nat :=
  if reassembler.finished.contains heapCount then
    reassembler.history
  else
    reassembler.history ++ [heapCount]

/-- Remember how a heap ended. What the history has no room for is forgotten, oldest first. -/
def remember (reassembler : Reassembler) (heapCount : Nat) (fate : Fate) : Reassembler :=
  if reassembler.settings.historyLength = 0 then
    reassembler
  else
    let queue := reassembler.enqueue heapCount
    let surplus := queue.length - reassembler.settings.historyLength
    { reassembler with
      history := queue.drop surplus
      finished := (queue.take surplus).foldl Table.erase
        (reassembler.finished.put heapCount fate) }

/-- Take a heap out of the table and remember how it ended. -/
def finish (reassembler : Reassembler) (heapCount : Nat) (fate : Fate) : Reassembler :=
  { reassembler.remember heapCount fate with
    heaps := reassembler.heaps.erase heapCount
    offsets := reassembler.offsets.forget heapCount }

/-- Give up a heap because of what a packet, or the whole of it, says. -/
def abandon (reassembler : Reassembler) (heapCount : Nat) (cause : ReassemblyError) : Step :=
  let finished := reassembler.finish heapCount .abandoned
  ({ finished with
      stats.heapsAbandoned := finished.stats.heapsAbandoned + 1 },
    [.dropped cause])

/-- Hand out a complete heap. One that only marks the end of the stream is not handed out. -/
def complete (reassembler : Reassembler) (heap : PartialHeap) : Step :=
  match heap.resolve reassembler.settings.compat with
  | .error cause => reassembler.abandon heap.count cause
  | .ok received =>
      let finished := reassembler.finish heap.count .complete
      if heap.endOfStream && received.isControlOnly then
        (finished, [])
      else
        ({ finished with
            stats.heapsCompleted := finished.stats.heapsCompleted + 1 },
          [.heap received])

def evict (reassembler : Reassembler) (heap : PartialHeap) : Step :=
  let finished := reassembler.finish heap.count .abandoned
  ({ finished with
      stats.heapsEvicted := finished.stats.heapsEvicted + 1 },
    [.dropped (.evictedHeap heap.count heap.received.total heap.heapLength
      reassembler.settings.maxHeaps)])

def oldest? : List PartialHeap → Option PartialHeap
  | [] => none
  | heap :: rest =>
      match oldest? rest with
      | none => some heap
      | some other => if heap.sequence ≤ other.sequence then some heap else some other

/-- Drive out the oldest heaps but `keep`, as many as `excess` says. -/
def evictOldest (keep : Nat) : (excess : Nat) → Reassembler → Step
  | 0, reassembler => (reassembler, [])
  | excess + 1, reassembler =>
      match oldest? (reassembler.heaps.values.filter fun heap => heap.count ≠ keep) with
      | none => (reassembler, [])
      | some heap =>
          let (evicted, event) := reassembler.evict heap
          let (final, events) := evictOldest keep excess evicted
          (final, event ++ events)

/-- Give up all incomplete heaps, the oldest first, and end the stream. -/
def stop (reassembler : Reassembler) : Step :=
  if reassembler.stopped then
    (reassembler, [])
  else
    let flushed := reassembler.heaps.values.mergeSort fun left right =>
      left.sequence ≤ right.sequence
    let truncated := flushed.map fun heap =>
      ReassemblyEvent.dropped (.truncatedHeap heap.count heap.received.total heap.heapLength)
    ({ reassembler with
        heaps := {}
        stopped := true
        stats.heapsTruncated := reassembler.stats.heapsTruncated + truncated.length
        stats.ended := true },
      truncated ++ [.endOfStream])

/-! ## Packets -/

def countSlice (stats : ReceiveStats) (packet : Packet) (added : Nat) : ReceiveStats :=
  if added = 0 && 0 < packet.payloadLength then
    { stats with packetsDuplicate := stats.packetsDuplicate + 1 }
  else
    { stats with bytesReceived := stats.bytesReceived + added }

/-- Add a packet to a heap of the table. -/
def addTo (reassembler : Reassembler) (heap : PartialHeap) (packet : Packet) : Step :=
  match heap.objection? packet with
  | some cause => reassembler.abandon heap.count cause
  | none =>
      let grown := heap.add packet
      let counted : Reassembler :=
        { reassembler with
          stats := countSlice reassembler.stats packet (heap.received.missing packet.span) }
      if grown.isComplete then
        counted.complete grown
      else
        let kept : Reassembler := { counted with heaps := counted.heaps.put grown.count grown }
        evictOldest grown.count
          (kept.heaps.entries.length - kept.settings.maxHeaps) kept

def noteOffset (reassembler : Reassembler) (packet : Packet) : Reassembler :=
  let late := reassembler.offsets.isLate packet.heapCount packet.payloadOffset
  { reassembler with
    offsets := reassembler.offsets.note packet.heapCount packet.payloadOffset
    stats.packetsReordered := reassembler.stats.packetsReordered + late.toNat }

/-- Add a packet to its heap, which it may begin. -/
def accept (reassembler : Reassembler) (packet : Packet) : Step :=
  match reassembler.heaps.get? packet.heapCount with
  | some heap => (reassembler.noteOffset packet).addTo heap packet
  | none =>
      if reassembler.settings.maxHeapSize < packet.heapLength then
        reassembler.abandon packet.heapCount
          (.heapTooLarge packet.heapCount packet.heapLength reassembler.settings.maxHeapSize)
      else
        let heap := PartialHeap.begin packet reassembler.nextSequence
        let begun := { reassembler with nextSequence := reassembler.nextSequence + 1 }
        (begun.noteOffset packet).addTo heap packet

/-- Insert a packet. One of a finished heap is ignored, and so is every packet once the stream has
ended. -/
def insertPacket (reassembler : Reassembler) (packet : Packet) : Step :=
  if reassembler.stopped || (reassembler.fate? packet.heapCount).isSome then
    ({ reassembler with
        stats.packetsIgnored := reassembler.stats.packetsIgnored + 1 }, [])
  else
    let counted : Reassembler :=
      { reassembler with
        stats.packetsReceived := reassembler.stats.packetsReceived + 1 }
    let (accepted, events) := counted.accept packet
    if packet.carriesStop then
      let (stopped, last) := accepted.stop
      (stopped, events ++ last)
    else
      (accepted, events)

/-- Insert a packet as it came. Bytes that are no packet are only counted. -/
def insertBytes (reassembler : Reassembler) (bytes : Bytes) :
    Reassembler × Except PacketError (List ReassemblyEvent) :=
  match Packet.parse bytes with
  | .ok (packet, _) =>
      let (next, events) := reassembler.insertPacket packet
      (next, .ok events)
  | .error cause =>
      ({ reassembler with
          stats.packetsMalformed := reassembler.stats.packetsMalformed + 1 }, .error cause)

end Reassembler
end Spead
