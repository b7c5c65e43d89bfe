import Spead.Proofs.Reassembler.Ledger

/-!
What a packet does to the heaps of other packets.

Nothing, but for one case: a packet begins a heap that stays incomplete, and the table has as many
heaps as it may have. Then the heap that was begun first makes room, and only that one.
-/

namespace Spead
namespace Reassembler

/-! ## The oldest heap -/

theorem oldest?_sequence_le
    {heaps : List PartialHeap} {oldest : PartialHeap} (found : oldest? heaps = some oldest) :
    ∀ heap ∈ heaps, oldest.sequence ≤ heap.sequence := by
  induction heaps generalizing oldest with
  | nil => cases found
  | cons head tail inductionHypothesis =>
      rw [List.forall_mem_cons]
      simp only [oldest?] at found
      split at found
      · next nobody =>
          cases found
          rw [(oldest?_eq_none_iff tail).1 nobody]
          exact ⟨Nat.le_refl _, by simp⟩
      · next other rest =>
          have others := inductionHypothesis rest
          split at found
          · next before =>
              cases found
              exact ⟨Nat.le_refl _, fun heap member => before.trans (others heap member)⟩
          · next behind =>
              cases found
              exact ⟨Nat.le_of_not_le behind, others⟩

/-- A heap is driven out of a table: it is older than all others but the one that is kept. -/
structure DrivesOut
    (before : Reassembler) (keep : Nat) (oldest : PartialHeap)
    (after : Reassembler) (events : List ReassemblyEvent) : Prop where
  held : before.heaps.get? oldest.count = some oldest
  other : oldest.count ≠ keep
  first : ∀ count heap, before.heaps.get? count = some heap → count ≠ keep →
    count ≠ oldest.count → oldest.sequence < heap.sequence
  heaps : ∀ count, after.heaps.get? count =
    if count = oldest.count then none else before.heaps.get? count
  told : events = [.dropped (.evictedHeap oldest.count oldest.received.total oldest.heapLength
    before.settings.maxHeaps)]

/-- One round of eviction drives out the oldest heap, if the table has another than the one that is
kept. -/
theorem drivesOut_evictOldest
    {reassembler : Reassembler} (coherent : reassembler.Coherent) (tidy : reassembler.Tidy)
    {keep other : Nat} {heap : PartialHeap} (held : reassembler.heaps.get? other = some heap)
    (different : other ≠ keep) :
    ∃ oldest, reassembler.DrivesOut keep oldest (evictOldest keep 1 reassembler).1
      (evictOldest keep 1 reassembler).2 := by
  have candidate {count : Nat} {heap : PartialHeap}
      (held : reassembler.heaps.get? count = some heap) (different : count ≠ keep) :
      heap ∈ reassembler.heaps.values.filter fun heap => heap.count ≠ keep := by
    rw [List.mem_filter, decide_eq_true_eq, coherent.keyed count heap held]
    exact ⟨(Table.mem_values_iff coherent.ascending heap).2 ⟨count, held⟩, different⟩
  simp only [evictOldest]
  split
  · next nobody =>
      rw [oldest?_eq_none_iff] at nobody
      have member := candidate held different
      rw [nobody] at member
      cases member
  · next oldest found =>
      have member := oldest?_mem found
      simp only [List.mem_filter, decide_eq_true_eq] at member
      obtain ⟨key, located⟩ := (Table.mem_values_iff coherent.ascending oldest).1 member.1
      rw [← coherent.keyed key oldest located] at located
      refine ⟨oldest, ?_⟩
      constructor
      case held => exact located
      case other => exact member.2
      case first =>
        intro count heap held notKept notOldest
        have bound := oldest?_sequence_le found heap (candidate held notKept)
        refine Nat.lt_of_le_of_ne bound fun same => notOldest ?_
        exact tidy.distinct count oldest.count heap oldest held located same.symm
      case heaps => exact (ends_evict reassembler oldest).get?
      case told => simp [evict]

/-! ## Accepted packets -/

/-- A packet begins a heap that stays incomplete, in a table that has as many heaps as it may
have. -/
structure Crowds
    (before : Reassembler) (maxHeaps : Nat) (packet : Packet) (after : Reassembler) : Prop where
  new : before.heapState packet.heapCount = .unseen
  incomplete : after.heapState packet.heapCount = .assembling
  full : before.heaps.entries.length = maxHeaps

/-- All heaps but the given one are in the table as they were, and none is told of as driven out. -/
structure Spares
    (before : Reassembler) (count : Nat)
    (after : Reassembler) (events : List ReassemblyEvent) : Prop where
  heaps : ∀ other ≠ count, after.heaps.get? other = before.heaps.get? other
  quiet : ∀ event ∈ events, event.kind ≠ .eviction

/-- All heaps but the given one are in the table as they were, except for the oldest of them, which
is driven out. -/
structure MakesRoom
    (before : Reassembler) (maxHeaps count : Nat) (oldest : PartialHeap)
    (after : Reassembler) (events : List ReassemblyEvent) : Prop where
  held : before.heaps.get? oldest.count = some oldest
  first : ∀ other heap, before.heaps.get? other = some heap → other ≠ oldest.count →
    oldest.sequence < heap.sequence
  heaps : ∀ other ≠ count, after.heaps.get? other =
    if other = oldest.count then none else before.heaps.get? other
  told : events = [.dropped (.evictedHeap oldest.count
    (Coverage.positions oldest.received.spans).card oldest.heapLength maxHeaps)]

section Accepted

variable {before after : Reassembler} {packet : Packet} {events : List ReassemblyEvent}

theorem heapState_eq_assembling_iff (reassembler : Reassembler) (count : Nat) :
    reassembler.heapState count = .assembling ↔ (reassembler.heaps.get? count).isSome := by
  cases held : reassembler.heaps.get? count with
  | some heap => simp [heapState_of_get? held]
  | none =>
      rw [heapState_of_absent held]
      cases reassembler.fate? count <;> simp

theorem heapState_eq_unseen_iff (reassembler : Reassembler) (count : Nat) :
    reassembler.heapState count = .unseen ↔
      reassembler.heaps.get? count = none ∧ reassembler.fate? count = none := by
  cases held : reassembler.heaps.get? count with
  | some heap => simp [heapState_of_get? held]
  | none =>
      rw [heapState_of_absent held]
      cases reassembler.fate? count <;> simp

/-- A heap that ends takes no other one with it. -/
theorem Ends.spares
    {count : Nat} {fate : Fate} (ends : before.Ends count fate after)
    (quiet : ∀ event ∈ events, event.kind ≠ .eviction) :
    before.Spares count after events where
  heaps := by
    intro other different
    rw [ends.get?, if_neg different]
  quiet := quiet

theorem Ends.not_crowds
    {fate : Fate} (ends : before.Ends packet.heapCount fate after) (maxHeaps : Nat) :
    ¬ before.Crowds maxHeaps packet after := by
  intro crowds
  have kept := (heapState_eq_assembling_iff after packet.heapCount).1 crowds.incomplete
  rw [ends.get?, if_pos rfl] at kept
  cases kept

/-- A packet of a heap of the table, or one for which there is room, leaves the table without
excess. -/
theorem length_hold_le
    (coherent : before.Coherent) (room : before.heaps.entries.length ≤ before.settings.maxHeaps)
    (spacious : (before.heaps.get? packet.heapCount).isSome ∨
      before.heaps.entries.length ≠ before.settings.maxHeaps) :
    (before.hold packet).heaps.entries.length ≤ before.settings.maxHeaps := by
  simp only [hold]
  cases found : before.heaps.get? packet.heapCount with
  | some heap =>
      rw [Table.length_entries_put_of_get? coherent.ascending found]
      exact room
  | none =>
      rw [Table.length_entries_put_of_absent coherent.ascending found]
      simp only [found, Option.isSome_none, Bool.false_eq_true, false_or] at spacious
      omega

theorem total_eq_card_of_get?
    {block : Nat → List Packet} (faithful : before.Faithful block) {count : Nat}
    {heap : PartialHeap} (held : before.heaps.get? count = some heap) :
    heap.received.total = (Coverage.positions heap.received.spans).card := by
  have canonical := (faithful.made count heap held).canonical
  rw [Coverage.card_positions canonical, Coverage.total]

/-- A packet that crowds the table drives out the oldest of the heaps that were in it. -/
theorem Accepts.makesRoom
    {block : Nat → List Packet} (accepts : before.Accepts packet after events)
    (faithful : before.Faithful block) (tidy : before.Tidy)
    (running : before.stopped = false) (positive : 1 ≤ before.settings.maxHeaps)
    (crowds : before.Crowds before.settings.maxHeaps packet after) :
    ∃ oldest, before.MakesRoom before.settings.maxHeaps packet.heapCount oldest after events := by
  have coherent := faithful.coherent
  obtain ⟨absent, fresh⟩ := (heapState_eq_unseen_iff before packet.heapCount).1 crowds.new
  cases accepts with
  | oversized _ _ ends _ => exact absurd crowds (ends.not_crowds _)
  | refused _ ends _ => exact absurd crowds (ends.not_crowds _)
  | unresolved _ _ _ ends _ => exact absurd crowds (ends.not_crowds _)
  | completed _ _ _ ends _ => exact absurd crowds (ends.not_crowds _)
  | @kept grown _ _ _ _ recounts evicted admits =>
      have others {other : Nat} (different : other ≠ packet.heapCount) :
          grown.heaps.get? other = before.heaps.get? other := by
        rw [recounts.heaps, get?_hold, if_neg different]
      have notOwn {other : Nat} {heap : PartialHeap}
          (held : before.heaps.get? other = some heap) : other ≠ packet.heapCount := by
        intro same
        rw [same, absent] at held
        cases held
      have excess : (before.hold packet).heaps.entries.length - before.settings.maxHeaps = 1 := by
        simp only [hold]
        rw [Table.length_entries_put_of_absent coherent.ascending absent, crowds.full]
        omega
      rw [recounts.settings, settings_hold, recounts.heaps, excess] at evicted
      -- The table is full, so it has a heap that can make room.
      obtain ⟨entry, member⟩ := List.exists_mem_of_length_pos (l := before.heaps.entries)
        (by rw [crowds.full]; omega)
      have held := (Table.get?_eq_some_iff coherent.ascending entry.1 entry.2).2 member
      obtain ⟨oldest, drives⟩ :=
        drivesOut_evictOldest (coherent_kept coherent running fresh recounts)
          (recounts.tidy (tidy_hold tidy admits.fits)) ((others (notOwn held)).trans held)
          (notOwn held)
      rw [evicted] at drives
      have located := drives.held
      rw [others drives.other] at located
      refine ⟨oldest, ?_⟩
      constructor
      case held => exact located
      case first =>
        intro other heap found notOldest
        exact drives.first other heap ((others (notOwn found)).trans found) (notOwn found)
          notOldest
      case heaps =>
        intro other different
        rw [drives.heaps, others different]
      case told =>
        have told := drives.told
        rw [recounts.settings, settings_hold] at told
        rw [← total_eq_card_of_get? faithful located]
        exact told

/-- Any other packet leaves the heaps of others alone. -/
theorem Accepts.spares
    (accepts : before.Accepts packet after events) (coherent : before.Coherent)
    (running : before.stopped = false) (fresh : before.fate? packet.heapCount = none)
    (room : before.heaps.entries.length ≤ before.settings.maxHeaps)
    (spacious : ¬ before.Crowds before.settings.maxHeaps packet after) :
    before.Spares packet.heapCount after events := by
  cases accepts with
  | oversized _ _ ends _ => exact ends.spares (by simp [ReassemblyEvent.kind])
  | refused objection ends _ =>
      have blames := PartialHeap.blames_of_objection? objection
      exact ends.spares (by simp [blames.kind_dropped])
  | unresolved _ _ unresolved ends _ =>
      have blames := PartialHeap.blames_of_resolve unresolved
      exact ends.spares (by simp [blames.kind_dropped])
  | completed _ _ _ ends _ =>
      refine ends.spares ?_
      split <;> simp [ReassemblyEvent.kind]
  | @kept grown _ _ _ _ recounts evicted _ =>
      have kept : after.heapState packet.heapCount = .assembling := by
        have evicts := evicts_kept coherent running fresh recounts evicted
        rw [heapState_eq_assembling_iff, evicts.kept, recounts.heaps, get?_hold, if_pos rfl]
        rfl
      have noExcess :
          (before.hold packet).heaps.entries.length - before.settings.maxHeaps = 0 := by
        refine Nat.sub_eq_zero_of_le (length_hold_le coherent room ?_)
        by_contra crowded
        rw [not_or, Option.not_isSome_iff_eq_none, not_not] at crowded
        refine spacious ⟨?_, kept, crowded.2⟩
        exact (heapState_eq_unseen_iff before packet.heapCount).2 ⟨crowded.1, fresh⟩
      rw [recounts.settings, settings_hold, recounts.heaps, noExcess] at evicted
      cases evicted
      refine ⟨?_, by simp⟩
      intro other different
      rw [recounts.heaps, get?_hold, if_neg different]

/-- A packet with the whole payload completes its heap, or ends it otherwise. -/
theorem Accepts.not_crowds_of_whole
    (accepts : before.Accepts packet after events)
    (whole : packet.payloadLength = packet.heapLength) (maxHeaps : Nat) :
    ¬ before.Crowds maxHeaps packet after := by
  intro crowds
  have absent := ((heapState_eq_unseen_iff before packet.heapCount).1 crowds.new).1
  cases accepts with
  | oversized _ _ ends _ => exact ends.not_crowds _ crowds
  | refused _ ends _ => exact ends.not_crowds _ crowds
  | unresolved _ _ _ ends _ => exact ends.not_crowds _ crowds
  | completed _ _ _ ends _ => exact ends.not_crowds _ crowds
  | kept accepted incomplete _ _ _ =>
      rw [target_of_absent absent] at accepted incomplete
      have inside :=
        ((PartialHeap.objection?_eq_none_iff _ packet).1 accepted).2.2.2.inside
      have made := PartialHeap.madeOf_add
        (PartialHeap.madeOf_begin packet before.nextSequence) rfl accepted
      rw [← Bool.not_eq_true, made.isComplete_iff] at incomplete
      apply incomplete
      intro position below
      refine ⟨packet, by simp, ?_⟩
      change position < packet.heapLength at below
      rw [Span.mem_iff]
      simp only [Packet.span]
      omega

end Accepted

/-! ## What is counted of a packet -/

/-- A packet with a slice that begins its heap brings new bytes. -/
theorem repeats_of_absent
    {reassembler : Reassembler} {packet : Packet}
    (absent : reassembler.heaps.get? packet.heapCount = none) :
    reassembler.repeats packet = false := by
  have new : reassembler.newBytes packet = packet.payloadLength := by
    rw [newBytes, target_of_absent absent]
    simp [PartialHeap.begin, Coverage.missing, Packet.span, Span.length]
  rw [repeats, new]
  simp only [Bool.and_eq_false_iff, decide_eq_false_iff_not]
  omega

theorem countTaken_of_not_repeats
    {reassembler : Reassembler} {packet : Packet} (new : reassembler.repeats packet = false)
    (stats : ReceiveStats) :
    ∃ bytes, reassembler.countTaken packet stats = { stats with bytesReceived := bytes } := by
  unfold countTaken
  split
  · change (reassembler.newBytes packet = 0 && 0 < packet.payloadLength) = false at new
    refine ⟨stats.bytesReceived + reassembler.newBytes packet, ?_⟩
    rw [countSlice, ← newBytes, new]
    rfl
  · exact ⟨stats.bytesReceived, rfl⟩

/-- The counters that show that a packet was ignored or a duplicate, or that it ended its heap, are
as before. -/
structure CountsNone (before after : ReceiveStats) : Prop where
  ignored : after.packetsIgnored = before.packetsIgnored
  duplicate : after.packetsDuplicate = before.packetsDuplicate
  completed : after.heapsCompleted = before.heapsCompleted
  abandoned : after.heapsAbandoned = before.heapsAbandoned

/-- A packet that begins a heap and only drives out others is neither ignored nor a duplicate, and
ends no heap of its own. -/
theorem countsNone_effects
    {reassembler : Reassembler} {call : Call} {packet : Packet}
    (brought : call.packet? = some packet)
    (absent : reassembler.heaps.get? packet.heapCount = none)
    (fresh : reassembler.fate? packet.heapCount = none)
    (evictions : ∀ event ∈ (reassembler.effects call).2, event.kind = .eviction) :
    CountsNone reassembler.stats (reassembler.effects call).1.stats := by
  have same : reassembler.effects call = reassembler.receiving.accept packet := by
    simp [effects, brought, fresh]
  have new : reassembler.receiving.repeats packet = false := repeats_of_absent absent
  obtain ⟨reordered, stats⟩ := stats_accept reassembler.receiving packet
  obtain ⟨bytes, counted⟩ := countTaken_of_not_repeats new
    { reassembler.receiving.stats with packetsReordered := reordered }
  rw [same] at evictions ⊢
  rw [stats, counted]
  have nothing (kind : EventKind) (other : kind ≠ .eviction) :
      ReassemblyEvent.tally kind (reassembler.receiving.accept packet).2 = 0 := by
    rw [ReassemblyEvent.tally, List.countP_eq_zero]
    intro event told sameKind
    rw [evictions event told, decide_eq_true_eq] at sameKind
    exact other sameKind.symm
  constructor
  case ignored => rfl
  case duplicate => rfl
  case completed =>
    rw [ReceiveStats.note, nothing .completion (by decide)]
    rfl
  case abandoned =>
    rw [ReceiveStats.note, nothing .oversize (by decide), nothing .abandonment (by decide)]
    rfl

/-! ## Whole runs -/

/-- What a packet without the mark of the end does to the heaps of other packets. -/
structure Separates
    (before : Reassembler) (maxHeaps : Nat) (packet : Packet)
    (after : Reassembler) (events : List ReassemblyEvent) : Prop where
  makes_room : before.Crowds maxHeaps packet after →
    ∃ oldest, before.MakesRoom maxHeaps packet.heapCount oldest after events
  spares : ¬ before.Crowds maxHeaps packet after →
    before.Spares packet.heapCount after events
  /-- No packet that completes a heap on its own makes another one leave. -/
  whole : packet.payloadLength = packet.heapLength → before.Spares packet.heapCount after events
  /-- No packet that is ignored or a duplicate, or that ends its heap, makes another one leave. -/
  counted : ¬ CountsNone before.stats after.stats → before.Spares packet.heapCount after events

/-- A packet is overlooked, or it is accepted. -/
theorem separates_effects
    {before : Reassembler} {block : Nat → List Packet} (faithful : before.Faithful block)
    (tidy : before.Tidy) (running : before.stopped = false)
    (positive : 1 ≤ before.settings.maxHeaps)
    (room : before.heaps.entries.length ≤ before.settings.maxHeaps) (packet : Packet) :
    before.Separates before.settings.maxHeaps packet (before.effects (.insert packet)).1
      (before.effects (.insert packet)).2 := by
  have coherent := faithful.coherent
  have brought : (Call.insert packet).packet? = some packet := rfl
  rcases before.effects_cases (.insert packet) with ⟨overlooked, known⟩ | ⟨_, ⟨⟩, fresh, _⟩
  · have recounts := recounts_overlook before (.insert packet)
    have spares : before.Spares packet.heapCount (before.overlook (.insert packet)) [] :=
      ⟨by simp [recounts.heaps], by simp⟩
    rw [overlooked]
    refine ⟨fun crowds => ?_, fun _ => spares, fun _ => spares, fun _ => spares⟩
    have fresh := ((heapState_eq_unseen_iff before packet.heapCount).1 crowds.new).2
    have late := known packet rfl
    rw [fresh] at late
    cases late
  · have accepts := accepts_effects coherent brought fresh
    have makesRoom := accepts.makesRoom faithful tidy running positive
    have spares := accepts.spares coherent running fresh room
    refine ⟨makesRoom, spares, fun whole => ?_, fun counted => ?_⟩
    · exact spares (accepts.not_crowds_of_whole whole _)
    · apply spares
      intro crowds
      obtain ⟨oldest, makes⟩ := makesRoom crowds
      have absent := ((heapState_eq_unseen_iff before packet.heapCount).1 crowds.new).1
      apply counted
      apply countsNone_effects brought absent fresh
      simp [makes.told, ReassemblyEvent.kind]

theorem insertBytes_of_parse
    {reassembler : Reassembler} (running : reassembler.stopped = false) {bytes : Bytes}
    {packet : Packet} {size : Nat} (parsed : Packet.parse bytes = .ok (packet, size))
    (unmarked : packet.carriesStop = false) :
    reassembler.insertBytes bytes =
      ((reassembler.effects (.insert packet)).1,
        .ok (reassembler.effects (.insert packet)).2) := by
  have brought : (Call.insert packet).packet? = some packet := rfl
  have goesOn : ¬ reassembler.EndsStream (.insert packet) := by
    rw [endsStream_of_packet? brought, unmarked]
    simp
  have same := call_of_not_endsStream running goesOn
  simp only [insertBytes, parsed]
  rw [← same]
  rfl

/-- After any calls, as long as the stream goes on, bytes that are no packet are counted and that
is all, and a packet leaves the heaps of all others alone, unless one of them has to make room. -/
theorem separation_run
    (settings : ReassemblerSettings) (calls : List Call) (bytes : Bytes)
    (running : (Recording.run settings calls).reassembler.stopped = false) :
    let before := (Recording.run settings calls).reassembler
    let after := (before.insertBytes bytes).1
    (∀ cause, Packet.parse bytes = .error cause →
      before.insertBytes bytes =
        ({ before with stats.packetsMalformed := before.stats.packetsMalformed + 1 },
          .error cause)) ∧
    ∀ packet size, Packet.parse bytes = .ok (packet, size) → packet.carriesStop = false →
      ∃ events, (before.insertBytes bytes).2 = .ok events ∧
        before.Separates (max 1 settings.maxHeaps) packet after events := by
  intro before after
  have faithful : before.Faithful (Recording.run settings calls).block :=
    Recording.faithful_run settings calls
  have tidy : before.Tidy := Recording.tidy_run settings calls
  have room : before.heaps.entries.length ≤ max 1 settings.maxHeaps :=
    Recording.length_heaps_run_le settings calls
  have limit : before.settings.maxHeaps = max 1 settings.maxHeaps := by
    simp only [before, Recording.settings_run]
    rfl
  have positive : 1 ≤ before.settings.maxHeaps := by
    rw [limit]
    exact Nat.le_max_left 1 settings.maxHeaps
  rw [← limit] at room ⊢
  constructor
  · intro cause malformed
    simp only [insertBytes, malformed]
  · intro packet size parsed unmarked
    have answer := insertBytes_of_parse running parsed unmarked
    have same : after = (before.effects (.insert packet)).1 := congrArg Prod.fst answer
    rw [answer, same]
    exact ⟨_, rfl, separates_effects faithful tidy running positive room packet⟩

/-- A heap in a table with room for one is driven out by a packet of another heap. -/
theorem separation_run_room_for_one :
    let packet (count : Nat) : Packet := ⟨count, 5, 0, 2, 48, [], [1, 2]⟩
    let before := (Recording.run { maxHeaps := 1 } [.insert (packet 7)]).reassembler
    let after := (before.insertBytes (packet 8).toBytes).1
    before.stopped = false ∧ Packet.parse (packet 8).toBytes = .ok (packet 8, 42) ∧
      (packet 8).carriesStop = false ∧
      ∃ events oldest, before.MakesRoom 1 8 oldest after events ∧ after.heaps.get? 7 = none := by
  intro packet before after
  have running : before.stopped = false := rfl
  have parsed : Packet.parse (packet 8).toBytes = .ok (packet 8, 42) := by
    decide +kernel
  obtain ⟨events, _, separates⟩ :=
    (separation_run { maxHeaps := 1 } [.insert (packet 7)] (packet 8).toBytes running).2
      (packet 8) 42 parsed rfl
  have inserted : after = (before.insertPacket (packet 8)).1 := by
    simp only [after, insertBytes, parsed]
  have crowds : before.Crowds 1 (packet 8) after := by
    rw [inserted]
    exact ⟨rfl, rfl, rfl⟩
  obtain ⟨oldest, makes⟩ := separates.makes_room crowds
  refine ⟨running, parsed, rfl, events, oldest, makes, ?_⟩
  rw [inserted]
  rfl

end Reassembler
end Spead
