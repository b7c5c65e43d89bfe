import Spead.Proofs.Reassembler.Effects

/-!
What is counted, against what is told.

The counters of heaps move with the events and with nothing else; those of packets and of bytes
move with the calls.
-/

namespace Spead

inductive EventKind where
  | completion
  | eviction
  | truncation
  /-- A packet would have begun a heap that is too long. -/
  | oversize
  /-- A heap was given up for any other reason. -/
  | abandonment
  | ending
  deriving DecidableEq

namespace ReassemblyEvent

def kind : ReassemblyEvent → EventKind
  | .heap _ => .completion
  | .dropped (.evictedHeap _ _ _ _) => .eviction
  | .dropped (.truncatedHeap _ _ _) => .truncation
  | .dropped (.heapTooLarge _ _ _) => .oversize
  | .dropped _ => .abandonment
  | .endOfStream => .ending

def tally (kind : EventKind) (events : List ReassemblyEvent) : Nat :=
  events.countP fun event => event.kind = kind

@[simp] theorem tally_nil (kind : EventKind) : tally kind [] = 0 :=
  rfl

@[simp] theorem tally_append (kind : EventKind) (first later : List ReassemblyEvent) :
    tally kind (first ++ later) = tally kind first + tally kind later :=
  List.countP_append

theorem tally_cons (kind : EventKind) (event : ReassemblyEvent) (later : List ReassemblyEvent) :
    tally kind (event :: later) = (if event.kind = kind then 1 else 0) + tally kind later := by
  rw [tally, tally, List.countP_cons, Nat.add_comm]
  simp only [decide_eq_true_eq]

end ReassemblyEvent

theorem ReassemblyError.Blames.kind_dropped
    {heapCount : Nat} {cause : ReassemblyError} (blames : cause.Blames heapCount) :
    (ReassemblyEvent.dropped cause).kind = .abandonment := by
  cases blames <;> rfl

namespace ReceiveStats

open ReassemblyEvent

def note (stats : ReceiveStats) (events : List ReassemblyEvent) : ReceiveStats :=
  { stats with
    heapsCompleted := stats.heapsCompleted + tally .completion events
    heapsEvicted := stats.heapsEvicted + tally .eviction events
    heapsTruncated := stats.heapsTruncated + tally .truncation events
    heapsAbandoned :=
      stats.heapsAbandoned + (tally .oversize events + tally .abandonment events) }

theorem note_append
    (stats : ReceiveStats) (first later : List ReassemblyEvent) :
    stats.note (first ++ later) = (stats.note first).note later := by
  simp only [note, tally_append, mk.injEq, Nat.add_assoc, true_and, and_true]
  omega

def packets (stats : ReceiveStats) : Nat :=
  stats.packetsReceived + stats.packetsIgnored + stats.packetsMalformed

/-- The counters of heaps agree with everything that was told. -/
structure CountsEnds (stats : ReceiveStats) (told : List ReassemblyEvent) : Prop where
  completed : stats.heapsCompleted = tally .completion told
  evicted : stats.heapsEvicted = tally .eviction told
  truncated : stats.heapsTruncated = tally .truncation told
  abandoned : stats.heapsAbandoned = tally .oversize told + tally .abandonment told

theorem CountsEnds.note
    {stats : ReceiveStats} {told : List ReassemblyEvent} (counts : stats.CountsEnds told)
    (events : List ReassemblyEvent) :
    (stats.note events).CountsEnds (told ++ events) := by
  constructor
  case completed => rw [ReceiveStats.note, counts.completed, tally_append]
  case evicted => rw [ReceiveStats.note, counts.evicted, tally_append]
  case truncated => rw [ReceiveStats.note, counts.truncated, tally_append]
  case abandoned =>
    rw [tally_append, tally_append, ReceiveStats.note]
    dsimp only
    rw [counts.abandoned]
    omega

end ReceiveStats

namespace Reassembler

open ReassemblyEvent

/-! ## The counters, function by function -/

section Stats

variable (reassembler : Reassembler)

theorem stats_remember (count : Nat) (fate : Fate) :
    (reassembler.remember count fate).stats = reassembler.stats := by
  unfold remember
  split <;> rfl

theorem stats_finish (count : Nat) (fate : Fate) :
    (reassembler.finish count fate).stats = reassembler.stats :=
  reassembler.stats_remember count fate

theorem stats_abandon
    (count : Nat) {cause : ReassemblyError}
    (givenUp : (dropped cause).kind = .oversize ∨ (dropped cause).kind = .abandonment) :
    (reassembler.abandon count cause).1.stats =
      reassembler.stats.note (reassembler.abandon count cause).2 := by
  simp only [abandon, stats_finish, ReceiveStats.note, tally_cons, tally_nil]
  rcases givenUp with kind | kind
  · simp [kind]
  · simp [kind]

theorem stats_complete (heap : PartialHeap) :
    (reassembler.complete heap).1.stats =
      reassembler.stats.note (reassembler.complete heap).2 := by
  cases resolution : heap.resolve reassembler.settings.compat with
  | error cause =>
      rw [complete_of_error resolution]
      have blames := PartialHeap.blames_of_resolve resolution
      exact reassembler.stats_abandon heap.count (Or.inr blames.kind_dropped)
  | ok received =>
      simp only [complete, resolution]
      split
      · exact reassembler.stats_finish heap.count .complete
      · simp [stats_finish, ReceiveStats.note, tally_cons, kind]

theorem stats_evict (heap : PartialHeap) :
    (reassembler.evict heap).1.stats = reassembler.stats.note (reassembler.evict heap).2 := by
  simp [evict, stats_finish, ReceiveStats.note, tally_cons, kind]

theorem stats_evictOldest (keep excess : Nat) :
    (evictOldest keep excess reassembler).1.stats =
      reassembler.stats.note (evictOldest keep excess reassembler).2 := by
  induction excess generalizing reassembler with
  | zero => rfl
  | succ excess inductionHypothesis =>
      simp only [evictOldest]
      split
      · rfl
      · next heap _ =>
          rw [inductionHypothesis, stats_evict, ReceiveStats.note_append]

theorem tally_map_truncated (kind : EventKind) (heaps : List PartialHeap) :
    tally kind (heaps.map fun heap =>
        dropped (.truncatedHeap heap.count heap.received.total heap.heapLength)) =
      if kind = .truncation then heaps.length else 0 := by
  induction heaps with
  | nil => simp
  | cons head tail inductionHypothesis =>
      rw [List.map_cons, tally_cons, inductionHypothesis, ReassemblyEvent.kind]
      cases kind <;> simp [Nat.add_comm]

theorem stats_stop (running : reassembler.stopped = false) :
    reassembler.stop.1.stats =
      { reassembler.stats.note reassembler.stop.2 with ended := true } := by
  simp [stop, running, ReceiveStats.note, tally_cons, tally_map_truncated, kind]

theorem stats_addTo (heap : PartialHeap) (packet : Packet) :
    (reassembler.addTo heap packet).1.stats =
      (if heap.objection? packet = none then
        countSlice reassembler.stats packet (heap.received.missing packet.span)
      else
        reassembler.stats).note (reassembler.addTo heap packet).2 := by
  unfold addTo
  split
  · next cause objection =>
      rw [if_neg (by simp [objection])]
      have blames := PartialHeap.blames_of_objection? objection
      exact reassembler.stats_abandon heap.count (Or.inr blames.kind_dropped)
  · next accepted =>
      rw [if_pos accepted]
      dsimp only
      split
      · rw [stats_complete]
      · rw [stats_evictOldest]

/-- A packet that does not begin a heap that is too long. -/
def Allows (packet : Packet) : Prop :=
  reassembler.heaps.get? packet.heapCount = none →
    packet.heapLength ≤ reassembler.settings.maxHeapSize

instance (packet : Packet) : Decidable (reassembler.Allows packet) :=
  inferInstanceAs (Decidable (_ → _))

/-- A packet that is allowed for and belongs to its heap. -/
def Takes (packet : Packet) : Prop :=
  reassembler.Allows packet ∧ (reassembler.target packet).objection? packet = none

instance (packet : Packet) : Decidable (reassembler.Takes packet) :=
  inferInstanceAs (Decidable (_ ∧ _))

/-- The counters with the slice of a packet counted, if the packet is taken. -/
def countTaken (packet : Packet) (stats : ReceiveStats) : ReceiveStats :=
  if reassembler.Takes packet then
    countSlice stats packet ((reassembler.target packet).received.missing packet.span)
  else
    stats

theorem stats_accept (packet : Packet) :
    ∃ reordered, (reassembler.accept packet).1.stats =
      (reassembler.countTaken packet
        { reassembler.stats with packetsReordered := reordered }).note
          (reassembler.accept packet).2 := by
  unfold accept
  split
  · next heap found =>
      refine ⟨(reassembler.noteOffset packet).stats.packetsReordered, ?_⟩
      have same := target_of_get? found
      have taken : reassembler.Takes packet ↔ heap.objection? packet = none := by
        simp [Takes, Allows, same, found]
      rw [stats_addTo]
      simp only [countTaken, taken, same]
      rfl
  · next absent =>
      split
      · next long =>
          refine ⟨reassembler.stats.packetsReordered, ?_⟩
          have refused : ¬ reassembler.Takes packet := by
            rintro ⟨fits, _⟩
            exact absurd (fits absent) (Nat.not_le.2 long)
          rw [countTaken, if_neg refused]
          exact reassembler.stats_abandon packet.heapCount (Or.inl rfl)
      · next short =>
          let begun : Reassembler :=
            { reassembler with nextSequence := reassembler.nextSequence + 1 }
          refine ⟨(begun.noteOffset packet).stats.packetsReordered, ?_⟩
          have same := target_of_absent absent
          have taken : reassembler.Takes packet ↔
              (PartialHeap.begin packet reassembler.nextSequence).objection? packet = none := by
            simp [Takes, Allows, same, Nat.not_lt.1 short]
          dsimp only
          rw [stats_addTo]
          simp only [countTaken, taken, same]
          rfl

end Stats

/-! ## The counters, call by call -/

section Calls

variable {reassembler : Reassembler} {call : Call}

theorem countsEnds_countTaken
    {stats : ReceiveStats} {told : List ReassemblyEvent} (counts : stats.CountsEnds told)
    (packet : Packet) :
    (reassembler.countTaken packet stats).CountsEnds told := by
  unfold countTaken countSlice
  split
  · split <;> exact ⟨counts.completed, counts.evicted, counts.truncated, counts.abandoned⟩
  · exact counts

theorem countsEnds_overlook
    {told : List ReassemblyEvent} (counts : reassembler.stats.CountsEnds told) (call : Call) :
    (reassembler.overlook call).stats.CountsEnds told := by
  unfold overlook
  split <;> exact ⟨counts.completed, counts.evicted, counts.truncated, counts.abandoned⟩

theorem countsEnds_effects
    {told : List ReassemblyEvent} (counts : reassembler.stats.CountsEnds told) (call : Call) :
    (reassembler.effects call).1.stats.CountsEnds (told ++ (reassembler.effects call).2) := by
  rcases reassembler.effects_cases call with ⟨same, _⟩ | ⟨packet, _, _, same⟩
  · rw [same, List.append_nil]
    exact countsEnds_overlook counts call
  · rw [same]
    obtain ⟨reordered, stats⟩ := stats_accept reassembler.receiving packet
    rw [stats]
    apply ReceiveStats.CountsEnds.note
    apply countsEnds_countTaken
    exact ⟨counts.completed, counts.evicted, counts.truncated, counts.abandoned⟩

theorem countsEnds_call
    {told : List ReassemblyEvent} (coherent : reassembler.Coherent)
    (counts : reassembler.stats.CountsEnds told) (call : Call) :
    (reassembler.call call).1.stats.CountsEnds (told ++ (reassembler.call call).2) := by
  rcases reassembler.call_cases call with ⟨_, same⟩ | ⟨_, _, same⟩ | ⟨running, _, same⟩
  · rw [same, List.append_nil]
    exact countsEnds_overlook counts call
  · rw [same]
    exact countsEnds_effects counts call
  · have ended := (countsEnds_effects counts call).note (reassembler.effects call).1.stop.2
    rw [same, stats_stop _ (stopped_effects coherent running call), ← List.append_assoc]
    exact ⟨ended.completed, ended.evicted, ended.truncated, ended.abandoned⟩

def newBytes (reassembler : Reassembler) (packet : Packet) : Nat :=
  (reassembler.target packet).received.missing packet.span

def repeats (reassembler : Reassembler) (packet : Packet) : Bool :=
  reassembler.newBytes packet = 0 && 0 < packet.payloadLength

def taken? (reassembler : Reassembler) (call : Call) : Option Packet :=
  call.packet?.filter fun packet =>
    reassembler.stopped = false ∧ reassembler.fate? packet.heapCount = none ∧
      reassembler.Takes packet

theorem taken?_eq_some_iff (packet : Packet) :
    reassembler.taken? call = some packet ↔
      call.packet? = some packet ∧ reassembler.stopped = false ∧
        reassembler.fate? packet.heapCount = none ∧ reassembler.Takes packet := by
  rw [taken?, Option.filter_eq_some_iff, decide_eq_true_eq]

/-- What is counted of slices goes up with the packet that is added to a heap. -/
structure CountsSlice
    (reassembler : Reassembler) (added : Option Packet) (before after : ReceiveStats) : Prop where
  bytes : after.bytesReceived = before.bytesReceived + added.elim 0 reassembler.newBytes
  duplicates : after.packetsDuplicate =
    before.packetsDuplicate + added.elim 0 fun packet => (reassembler.repeats packet).toNat

theorem countsSlice_overlook (call : Call) :
    reassembler.CountsSlice none reassembler.stats (reassembler.overlook call).stats := by
  unfold overlook
  split <;> exact ⟨rfl, rfl⟩

theorem countsSlice_countTaken (stats : ReceiveStats) {packet : Packet} {added : Option Packet}
    (taken : added = if reassembler.Takes packet then some packet else none) :
    reassembler.CountsSlice added stats (reassembler.countTaken packet stats) := by
  rw [taken, countTaken]
  split
  · change reassembler.CountsSlice (some packet) stats
      (countSlice stats packet (reassembler.newBytes packet))
    unfold countSlice
    split
    · next nothingNew =>
        have repeated : reassembler.repeats packet = true := nothingNew
        rw [Bool.and_eq_true, decide_eq_true_eq] at nothingNew
        exact ⟨by simp [nothingNew.1], by simp [repeated]⟩
    · next new =>
        have fresh : reassembler.repeats packet = false := Bool.eq_false_iff.2 new
        exact ⟨rfl, by simp [fresh]⟩
  · exact ⟨rfl, rfl⟩

theorem countsSlice_effects (running : reassembler.stopped = false) (call : Call) :
    reassembler.CountsSlice (reassembler.taken? call) reassembler.stats
      (reassembler.effects call).1.stats := by
  rcases reassembler.effects_cases call with ⟨same, passed⟩ | ⟨packet, brought, fresh, same⟩
  · have nothing : reassembler.taken? call = none := by
      rw [taken?, Option.filter_eq_none_iff]
      intro packet brought
      have known := passed packet brought
      simp [Option.isSome_iff_ne_none.1 known]
    rw [same, nothing]
    exact countsSlice_overlook call
  · have taken :
        reassembler.taken? call = if reassembler.Takes packet then some packet else none := by
      simp [taken?, brought, running, fresh, Option.filter]
    obtain ⟨reordered, stats⟩ := stats_accept reassembler.receiving packet
    rw [same, stats]
    have counts := countsSlice_countTaken
      { reassembler.receiving.stats with packetsReordered := reordered } taken
    exact ⟨counts.bytes, counts.duplicates⟩

theorem countsSlice_call (coherent : reassembler.Coherent) (call : Call) :
    reassembler.CountsSlice (reassembler.taken? call) reassembler.stats
      (reassembler.call call).1.stats := by
  rcases reassembler.call_cases call with ⟨stopped, same⟩ | ⟨running, _, same⟩ | ⟨running, _, same⟩
  · have nothing : reassembler.taken? call = none := by
      rw [taken?, Option.filter_eq_none_iff]
      simp [stopped]
    rw [same, nothing]
    exact countsSlice_overlook call
  · rw [same]
    exact countsSlice_effects running call
  · have counts := countsSlice_effects running call
    rw [same, stats_stop _ (stopped_effects coherent running call)]
    exact ⟨counts.bytes, counts.duplicates⟩

def Call.inserts : Call → Bool
  | .insert _ => true
  | .receive _ => true
  | .stop => false

theorem Call.inserts_of_packet?
    {call : Call} {packet : Packet} (brought : call.packet? = some packet) :
    call.inserts = true := by
  cases call with
  | stop => cases brought
  | insert packet => rfl
  | receive bytes => rfl

theorem packets_overlook (call : Call) :
    (reassembler.overlook call).stats.packets =
      reassembler.stats.packets + call.inserts.toNat := by
  cases brought : call.packet? with
  | some packet =>
      rw [overlook_of_packet? reassembler brought, Call.inserts_of_packet? brought]
      simp only [ReceiveStats.packets, Bool.toNat_true]
      omega
  | none =>
      cases call with
      | stop => rfl
      | insert packet => cases brought
      | receive bytes =>
          simp only [overlook, brought]
          rfl

theorem packets_countTaken (packet : Packet) (stats : ReceiveStats) :
    (reassembler.countTaken packet stats).packets = stats.packets := by
  unfold countTaken countSlice
  split
  · split <;> rfl
  · rfl

theorem packets_effects (call : Call) :
    (reassembler.effects call).1.stats.packets =
      reassembler.stats.packets + call.inserts.toNat := by
  rcases reassembler.effects_cases call with ⟨same, _⟩ | ⟨packet, brought, _, same⟩
  · rw [same, packets_overlook]
  · obtain ⟨reordered, stats⟩ := stats_accept reassembler.receiving packet
    rw [same, stats, Call.inserts_of_packet? brought]
    change (countTaken _ _ _).packets = _
    rw [packets_countTaken]
    simp only [ReceiveStats.packets, receiving, Bool.toNat_true]
    omega

/-- Every insertion is counted once: as received, as ignored or as malformed. -/
theorem packets_call (coherent : reassembler.Coherent) (call : Call) :
    (reassembler.call call).1.stats.packets =
      reassembler.stats.packets + call.inserts.toNat := by
  rcases reassembler.call_cases call with ⟨_, same⟩ | ⟨_, _, same⟩ | ⟨running, _, same⟩
  · rw [same, packets_overlook]
  · rw [same, packets_effects]
  · rw [same, stats_stop _ (stopped_effects coherent running call), ← packets_effects]
    rfl

end Calls

end Reassembler
end Spead
