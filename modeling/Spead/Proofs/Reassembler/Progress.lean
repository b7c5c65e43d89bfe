import Mathlib.Data.List.DropRight
import Spead.Proofs.Reassembler.Run
import Spead.Proofs.Reassembler.Sent

/-!
How far the heaps that are sent have got.

From the packets that have arrived it is known which heaps are begun, and which are covered by
their packets. As long as all begun heaps have room, the table of the reassembler holds those that
are begun and not covered, each made of its own packets, and the history holds the covered ones.
-/

namespace Spead

/-! ## Heaps and the packets that have arrived -/

namespace Heap

/-- Length of the payload of the heap, if the heap has a layout. -/
def payloadLength (heap : Heap) : Nat :=
  match heap.layout with
  | .ok (_, payload) => payload.length
  | .error _ => 0

theorem payloadLength_of_layout
    {heap : Heap} {pointers : List UInt64} {payload : Bytes}
    (layout : heap.layout = .ok (pointers, payload)) :
    heap.payloadLength = payload.length := by
  simp only [payloadLength, layout]

def share (heap : Heap) (arrived : List Packet) : List Packet :=
  arrived.filter fun packet => packet.heapCount = heap.count

def BegunBy (heap : Heap) (arrived : List Packet) : Prop :=
  heap.share arrived ≠ []

/-- A packet of the heap has arrived, and every byte of its payload has. -/
def CoveredBy (heap : Heap) (arrived : List Packet) : Prop :=
  heap.BegunBy arrived ∧
    ∀ position < heap.payloadLength, ∃ packet ∈ heap.share arrived, position ∈ packet.span

instance (heap : Heap) (arrived : List Packet) : Decidable (heap.BegunBy arrived) :=
  inferInstanceAs (Decidable (heap.share arrived ≠ []))

instance (heap : Heap) (arrived : List Packet) : Decidable (heap.CoveredBy arrived) :=
  inferInstanceAs (Decidable (_ ∧ _))

/-- Packets have arrived, but not every byte. -/
def OpenAfter (heap : Heap) (arrived : List Packet) : Prop :=
  heap.BegunBy arrived ∧ ¬ heap.CoveredBy arrived

instance (heap : Heap) (arrived : List Packet) : Decidable (heap.OpenAfter arrived) :=
  inferInstanceAs (Decidable (_ ∧ _))

/-- The heap is covered with the last packet and was not before it. -/
def CompletedBy (heap : Heap) (arrived : List Packet) (packet : Packet) : Prop :=
  heap.CoveredBy (arrived ++ [packet]) ∧ ¬ heap.CoveredBy arrived

instance (heap : Heap) (arrived : List Packet) (packet : Packet) :
    Decidable (heap.CompletedBy arrived packet) :=
  inferInstanceAs (Decidable (_ ∧ _))

section Share

variable {heap : Heap} {arrived : List Packet} {packet : Packet}

theorem share_append_of_eq (same : packet.heapCount = heap.count) :
    heap.share (arrived ++ [packet]) = heap.share arrived ++ [packet] := by
  simp [share, same]

theorem share_append_of_ne (different : packet.heapCount ≠ heap.count) :
    heap.share (arrived ++ [packet]) = heap.share arrived := by
  simp [share, different]

theorem not_begunBy_nil (heap : Heap) : ¬ heap.BegunBy [] := by
  simp [BegunBy, share]

theorem CoveredBy.append (covered : heap.CoveredBy arrived) :
    heap.CoveredBy (arrived ++ [packet]) := by
  have kept : ∀ other ∈ heap.share arrived, other ∈ heap.share (arrived ++ [packet]) := by
    intro other member
    rw [share, List.filter_append]
    exact List.mem_append_left _ member
  obtain ⟨begun, everywhere⟩ := covered
  constructor
  · obtain ⟨first, member⟩ := List.exists_mem_of_ne_nil _ begun
    exact List.ne_nil_of_mem (kept first member)
  · intro position inside
    obtain ⟨other, member, inSpan⟩ := everywhere position inside
    exact ⟨other, kept other member, inSpan⟩

theorem begunBy_append_of_eq (same : packet.heapCount = heap.count) :
    heap.BegunBy (arrived ++ [packet]) := by
  rw [BegunBy, share_append_of_eq same]
  simp

theorem begunBy_append_of_ne (different : packet.heapCount ≠ heap.count) :
    heap.BegunBy (arrived ++ [packet]) ↔ heap.BegunBy arrived := by
  rw [BegunBy, share_append_of_ne different, BegunBy]

theorem coveredBy_append_of_ne (different : packet.heapCount ≠ heap.count) :
    heap.CoveredBy (arrived ++ [packet]) ↔ heap.CoveredBy arrived := by
  rw [CoveredBy, begunBy_append_of_ne different, share_append_of_ne different, CoveredBy]

theorem openAfter_append_of_ne (different : packet.heapCount ≠ heap.count) :
    heap.OpenAfter (arrived ++ [packet]) ↔ heap.OpenAfter arrived := by
  rw [OpenAfter, begunBy_append_of_ne different, coveredBy_append_of_ne different, OpenAfter]

end Share

/-- A heap that a reassembler takes from its packets. -/
structure Receivable (settings : ReassemblerSettings) (heap : Heap) : Prop where
  avoids : heap.AvoidsPacketItems
  compat : heap.flavour.compat = settings.compat
  size : heap.payloadLength ≤ settings.maxHeapSize
  /-- No pointer tells that the stream ends with the heap. -/
  unmarked : ∀ pointers payload, heap.layout = .ok (pointers, payload) →
    ∀ word ∈ pointers,
      heap.flavour.decodePointer word ≠ ⟨ItemId.streamControl, true, StreamControl.stop⟩

theorem Receivable.carriesStop
    {settings : ReassemblerSettings} {heap : Heap} {packet : Packet}
    (receivable : heap.Receivable settings) (cuts : heap.Cuts packet) :
    packet.carriesStop = false := by
  obtain ⟨pointers, payload, layout, carries⟩ := cuts.carries
  unfold Packet.carriesStop
  rw [List.any_eq_false, carries.pointers, carries.addressBits]
  intro word member
  simpa [Flavour.decodePointer] using receivable.unmarked pointers payload layout word member

end Heap

namespace Reassembler

/-! ## Progress -/

/-- Where a reassembler stands that was idle at the start, given what has arrived since. The heaps
that are done come in the order in which they were completed. -/
structure Progress
    (start : Reassembler) (sent : List Heap) (arrived : List Packet) (done : List Heap)
    (now : Reassembler) : Prop where
  coherent : now.Coherent
  running : now.stopped = false
  settings : now.settings = start.settings
  made : ∀ heap ∈ sent, heap.OpenAfter arrived →
    ∃ held, now.heaps.get? heap.count = some held ∧ held.MadeOf (heap.share arrived)
  open_of_get? : ∀ count held, now.heaps.get? count = some held →
    ∃ heap ∈ sent, heap.count = count ∧ heap.OpenAfter arrived
  history :
    now.history = (start.history ++ done.map Heap.count).rtake start.settings.historyLength
  distinct : done.Nodup
  mem_done : ∀ heap, heap ∈ done ↔ heap ∈ sent ∧ heap.CoveredBy arrived

structure Promises (start : Reassembler) (sent : List Heap) : Prop where
  distinct : (sent.map Heap.count).Nodup
  receivable : ∀ heap ∈ sent, heap.Receivable start.settings
  /-- None of the heaps is remembered from before. -/
  fresh : ∀ heap ∈ sent, heap.count ∉ start.history
  remembered : sent.length ≤ start.settings.historyLength

section Progress

variable {start now : Reassembler} {sent done : List Heap} {arrived : List Packet}

theorem Promises.eq_of_count
    (promises : start.Promises sent) {heap other : Heap} (member : heap ∈ sent)
    (otherMember : other ∈ sent) (same : other.count = heap.count) :
    other = heap :=
  List.inj_on_of_nodup_map promises.distinct otherMember member same

theorem Progress.length_done_le (progress : start.Progress sent arrived done now) :
    done.length ≤ sent.length := by
  apply (progress.distinct.subperm _).length_le
  intro heap member
  exact ((progress.mem_done heap).1 member).1

theorem Progress.fate?_isSome_iff
    (progress : start.Progress sent arrived done now) (promises : start.Promises sent)
    {heap : Heap} (member : heap ∈ sent) :
    (now.fate? heap.count).isSome ↔ heap.CoveredBy arrived := by
  rw [← progress.coherent.remembers.listed, progress.history]
  constructor
  · intro remembered
    rcases List.mem_append.1 (mem_of_mem_rtake remembered) with before | since
    · exact absurd before (promises.fresh heap member)
    · obtain ⟨other, isDone, same⟩ := List.mem_map.1 since
      obtain ⟨otherMember, covered⟩ := (progress.mem_done other).1 isDone
      rwa [← promises.eq_of_count member otherMember same]
  · intro covered
    apply mem_rtake_append
    · rw [List.length_map]
      exact progress.length_done_le.trans promises.remembered
    · exact List.mem_map_of_mem ((progress.mem_done heap).2 ⟨member, covered⟩)

theorem Progress.target_of_not_begunBy
    (progress : start.Progress sent arrived done now) (promises : start.Promises sent)
    {heap : Heap} (member : heap ∈ sent) (unbegun : ¬ heap.BegunBy arrived)
    {packet : Packet} (ofHeap : packet.heapCount = heap.count) :
    now.target packet = .begin packet now.nextSequence := by
  have absent : now.heaps.get? packet.heapCount = none := by
    rw [Option.eq_none_iff_forall_ne_some]
    intro held found
    obtain ⟨other, otherMember, same, opened⟩ := progress.open_of_get? _ held found
    rw [ofHeap] at same
    rw [promises.eq_of_count member otherMember same] at opened
    exact unbegun opened.1
  exact target_of_absent absent

/-- A heap that is not covered yet is held as far as it has arrived. -/
theorem Progress.madeOf_target
    (progress : start.Progress sent arrived done now) (promises : start.Promises sent)
    {heap : Heap} (member : heap ∈ sent) (uncovered : ¬ heap.CoveredBy arrived)
    {packet : Packet} (ofHeap : packet.heapCount = heap.count) :
    (now.target packet).MadeOf (heap.share arrived) := by
  by_cases begun : heap.BegunBy arrived
  · obtain ⟨held, found, made⟩ := progress.made heap member ⟨begun, uncovered⟩
    rw [target, ofHeap, found]
    exact made
  · have nothing : heap.share arrived = [] := not_not.1 begun
    rw [progress.target_of_not_begunBy promises member begun ofHeap, nothing]
    exact PartialHeap.madeOf_begin packet now.nextSequence

/-- The table is no longer than the list of the heaps that are open. -/
theorem Progress.length_entries_le (progress : start.Progress sent arrived done now) :
    now.heaps.entries.length ≤ (sent.filter fun heap => heap.OpenAfter arrived).length := by
  have distinct := Table.nodup_keys progress.coherent.ascending
  rw [Table.length_entries_eq_length_keys, ← List.length_map Heap.count]
  apply (distinct.subperm _).length_le
  intro count member
  rw [Table.mem_keys_iff, Option.isSome_iff_exists] at member
  obtain ⟨held, found⟩ := member
  obtain ⟨heap, ofSent, same, opened⟩ := progress.open_of_get? count held found
  exact List.mem_map.2 ⟨heap, List.mem_filter.2 ⟨ofSent, by simpa using opened⟩, same⟩

/-! ## One packet more -/

variable {after : Reassembler} {heap : Heap} {packet : Packet}

theorem Promises.heapCount_ne
    (promises : start.Promises sent) (member : heap ∈ sent)
    (ofHeap : packet.heapCount = heap.count) {other : Heap} (otherMember : other ∈ sent)
    (different : other ≠ heap) :
    packet.heapCount ≠ other.count := by
  intro same
  apply different
  apply promises.eq_of_count member otherMember
  rw [← same, ofHeap]

theorem Promises.coveredBy_other_iff
    (promises : start.Promises sent) (member : heap ∈ sent)
    (ofHeap : packet.heapCount = heap.count) {other : Heap} (otherMember : other ∈ sent)
    (different : other ≠ heap) :
    other.CoveredBy arrived ↔ other.CoveredBy (arrived ++ [packet]) := by
  have otherCount := promises.heapCount_ne member ofHeap otherMember different
  rw [Heap.coveredBy_append_of_ne otherCount]

/-- The heaps that the packet does not belong to are held as before. -/
theorem Progress.made_other
    (progress : start.Progress sent arrived done now) {other : Heap} (otherMember : other ∈ sent)
    (different : packet.heapCount ≠ other.count) (opened : other.OpenAfter (arrived ++ [packet])) :
    ∃ held, now.heaps.get? other.count = some held ∧
      held.MadeOf (other.share (arrived ++ [packet])) := by
  rw [Heap.openAfter_append_of_ne different] at opened
  rw [Heap.share_append_of_ne different]
  exact progress.made other otherMember opened

theorem Progress.open_other
    (progress : start.Progress sent arrived done now) {count : Nat} {held : PartialHeap}
    (found : now.heaps.get? count = some held) (different : packet.heapCount ≠ count) :
    ∃ other ∈ sent, other.count = count ∧ other.OpenAfter (arrived ++ [packet]) := by
  obtain ⟨other, otherMember, sameCount, opened⟩ := progress.open_of_get? count held found
  rw [← sameCount] at different
  exact ⟨other, otherMember, sameCount, (Heap.openAfter_append_of_ne different).2 opened⟩

/-- A packet of a covered heap changes nothing. -/
theorem Progress.of_ignored
    (progress : start.Progress sent arrived done now) (promises : start.Promises sent)
    (member : heap ∈ sent) (ofHeap : packet.heapCount = heap.count)
    (covered : heap.CoveredBy arrived) (recounts : now.Recounts after) :
    start.Progress sent (arrived ++ [packet]) done after where
  coherent := recounts.coherent progress.coherent
  running := by rw [recounts.stopped, progress.running]
  settings := by rw [recounts.settings, progress.settings]
  made := by
    intro other otherMember opened
    by_cases same : other = heap
    · subst same
      exact absurd covered.append opened.2
    · have different := promises.heapCount_ne member ofHeap otherMember same
      rw [recounts.heaps]
      exact progress.made_other otherMember different opened
  open_of_get? := by
    intro count held found
    rw [recounts.heaps] at found
    apply progress.open_other found
    rintro rfl
    obtain ⟨other, otherMember, sameCount, opened⟩ := progress.open_of_get? _ held found
    have same := promises.eq_of_count member otherMember (sameCount.trans ofHeap)
    subst same
    exact opened.2 covered
  history := by rw [recounts.history, progress.history]
  distinct := progress.distinct
  mem_done := by
    intro other
    rw [progress.mem_done]
    apply and_congr_right
    intro otherMember
    by_cases same : other = heap
    · subst same
      simp [covered, covered.append]
    · exact promises.coveredBy_other_iff member ofHeap otherMember same

/-- A packet that completes its heap takes the heap out of the table. -/
theorem Progress.of_completed
    (progress : start.Progress sent arrived done now) (promises : start.Promises sent)
    (member : heap ∈ sent) (ofHeap : packet.heapCount = heap.count)
    (completed : heap.CompletedBy arrived packet) (fresh : now.fate? packet.heapCount = none)
    (ends : now.Ends packet.heapCount .complete after) :
    start.Progress sent (arrived ++ [packet]) (done ++ [heap]) after where
  coherent := ends.coherent progress.coherent
  running := by rw [ends.stopped, progress.running]
  settings := by rw [ends.settings, progress.settings]
  made := by
    intro other otherMember opened
    by_cases same : other = heap
    · subst same
      exact absurd completed.1 opened.2
    · have different := promises.heapCount_ne member ofHeap otherMember same
      rw [ends.get?, if_neg (Ne.symm different)]
      exact progress.made_other otherMember different opened
  open_of_get? := by
    intro count held found
    rw [ends.get?] at found
    split at found
    · cases found
    · next differentCount => exact progress.open_other found (Ne.symm differentCount)
  history := by
    rw [ends.history_eq progress.coherent.remembers fresh, progress.history, progress.settings,
      rtake_rtake_append, ofHeap]
    simp
  distinct := by
    have undone : heap ∉ done := by
      intro isDone
      exact completed.2 ((progress.mem_done heap).1 isDone).2
    rw [List.nodup_append_comm, List.singleton_append, List.nodup_cons]
    exact ⟨undone, progress.distinct⟩
  mem_done := by
    intro other
    rw [List.mem_append, progress.mem_done, List.mem_singleton]
    by_cases same : other = heap
    · subst same
      simp [member, completed.1]
    · simp only [same, or_false]
      apply and_congr_right
      intro otherMember
      exact promises.coveredBy_other_iff member ofHeap otherMember same

/-- A packet that does not complete its heap adds to it. -/
theorem Progress.of_kept
    (progress : start.Progress sent arrived done now) (promises : start.Promises sent)
    (member : heap ∈ sent) (ofHeap : packet.heapCount = heap.count)
    (opened : heap.OpenAfter (arrived ++ [packet]))
    (coherent : after.Coherent)
    (made : ((now.target packet).add packet).MadeOf (heap.share (arrived ++ [packet])))
    (recounts : (now.hold packet).Recounts after) :
    start.Progress sent (arrived ++ [packet]) done after where
  coherent := coherent
  running := by rw [recounts.stopped, stopped_hold, progress.running]
  settings := by rw [recounts.settings, settings_hold, progress.settings]
  made := by
    intro other otherMember otherOpened
    rw [recounts.heaps, get?_hold]
    by_cases same : other = heap
    · subst same
      rw [if_pos ofHeap.symm]
      exact ⟨_, rfl, made⟩
    · have different := promises.heapCount_ne member ofHeap otherMember same
      rw [if_neg (Ne.symm different)]
      exact progress.made_other otherMember different otherOpened
  open_of_get? := by
    intro count held found
    rw [recounts.heaps, get?_hold] at found
    split at found
    · next sameCount => exact ⟨heap, member, by rw [sameCount, ofHeap], opened⟩
    · next differentCount => exact progress.open_other found (Ne.symm differentCount)
  history := by rw [recounts.history, history_hold, progress.history]
  distinct := progress.distinct
  mem_done := by
    intro other
    rw [progress.mem_done]
    apply and_congr_right
    intro otherMember
    by_cases same : other = heap
    · subst same
      have uncovered : ¬ other.CoveredBy arrived := fun covered => opened.2 covered.append
      simp [uncovered, opened.2]
    · exact promises.coveredBy_other_iff member ofHeap otherMember same

end Progress

section Step

variable {start now : Reassembler} {sent done : List Heap} {arrived : List Packet} {heap : Heap}
  {packet : Packet} {pointers : List UInt64} {payload : Bytes}

/-- What a heap is made of that is not covered yet, with one packet more of it. -/
structure Grows
    (now : Reassembler) (heap : Heap) (arrived : List Packet) (packet : Packet) : Prop where
  accepted : (now.target packet).objection? packet = none
  made : ((now.target packet).add packet).MadeOf (heap.share (arrived ++ [packet]))
  isComplete_iff :
    ((now.target packet).add packet).isComplete = true ↔ heap.CoveredBy (arrived ++ [packet])

theorem Progress.grows
    (progress : start.Progress sent arrived done now) (promises : start.Promises sent)
    (member : heap ∈ sent) (uncovered : ¬ heap.CoveredBy arrived)
    (layout : heap.layout = .ok (pointers, payload))
    (carried : ∀ other ∈ heap.share arrived, heap.Carries pointers payload other)
    (carries : heap.Carries pointers payload packet) :
    now.Grows heap arrived packet := by
  have ofHeap := carries.heapCount
  have targetMade := progress.madeOf_target promises member uncovered ofHeap
  have accepted : (now.target packet).objection? packet = none := by
    rw [PartialHeap.objection?_eq_none_iff]
    by_cases begun : heap.BegunBy arrived
    · obtain ⟨_, sameLength, sameBits, samePointers⟩ := targetMade.sent begun carried
      refine ⟨?_, ?_, ?_, carries.fits⟩
      · rw [sameLength, carries.heapLength]
      · rw [sameBits, carries.addressBits]
      · rw [samePointers, carries.pointers]
    · rw [progress.target_of_not_begunBy promises member begun ofHeap]
      exact ⟨rfl, rfl, rfl, carries.fits⟩
  have made : ((now.target packet).add packet).MadeOf (heap.share (arrived ++ [packet])) := by
    rw [Heap.share_append_of_eq ofHeap]
    exact PartialHeap.madeOf_add targetMade (count_target progress.coherent packet).symm accepted
  refine ⟨accepted, made, ?_⟩
  rw [made.isComplete_iff]
  have member : packet ∈ heap.share (arrived ++ [packet]) := by
    rw [Heap.share_append_of_eq ofHeap]
    simp
  have length : ((now.target packet).add packet).heapLength = heap.payloadLength := by
    rw [← made.heapLength packet member, carries.heapLength, Heap.payloadLength_of_layout layout]
  rw [length, Heap.CoveredBy]
  simp [Heap.begunBy_append_of_eq ofHeap]

variable {after : Reassembler} {events : List ReassemblyEvent}

/-- The heaps that a packet completes: its own, or none. -/
def completedWith (heap : Heap) (arrived : List Packet) (packet : Packet) : List Heap :=
  if heap.CompletedBy arrived packet then [heap] else []

/-- An accepted packet of a heap completes it, and the heap is handed out, or nothing is told. All
open heaps have room. -/
theorem Progress.of_accepts
    (progress : start.Progress sent arrived done now) (promises : start.Promises sent)
    (member : heap ∈ sent) (cuts : heap.Cuts packet)
    (drawn : ∀ other ∈ heap.share arrived, heap.Cuts other)
    (room : (sent.filter fun other => other.OpenAfter (arrived ++ [packet])).length ≤
      start.settings.maxHeaps)
    (uncovered : ¬ heap.CoveredBy arrived) (fresh : now.fate? packet.heapCount = none)
    (accepts : now.Accepts packet after events) :
    start.Progress sent (arrived ++ [packet]) (done ++ completedWith heap arrived packet) after ∧
      events = ((completedWith heap arrived packet).filterMap Heap.delivered?).map .heap := by
  obtain ⟨pointers, payload, layout, carries⟩ := cuts.carries
  have receivable := promises.receivable heap member
  have ofHeap := carries.heapCount
  have carried : ∀ other ∈ heap.share arrived, heap.Carries pointers payload other := by
    intro other ofShare
    exact (drawn other ofShare).carries_of_layout layout
  have carriedAll :
      ∀ other ∈ heap.share (arrived ++ [packet]), heap.Carries pointers payload other := by
    rw [Heap.share_append_of_eq ofHeap]
    simpa [or_imp, forall_and] using ⟨carried, carries⟩
  have begun : heap.share (arrived ++ [packet]) ≠ [] := Heap.begunBy_append_of_eq ofHeap
  have grows := progress.grows promises member uncovered layout carried carries
  cases accepts with
  | oversized _ long _ =>
      have size := receivable.size
      rw [progress.settings, carries.heapLength] at long
      rw [Heap.payloadLength_of_layout layout] at size
      omega
  | refused objection _ =>
      rw [grows.accepted] at objection
      cases objection
  | unresolved _ complete unresolved _ =>
      obtain ⟨received, _, resolved⟩ :=
        grows.made.resolve_eq begun carriedAll layout complete
      rw [progress.settings, ← receivable.compat, resolved] at unresolved
      cases unresolved
  | @completed _ received _ complete resolved ends =>
      have completed : heap.CompletedBy arrived packet :=
        ⟨grows.isComplete_iff.1 complete, uncovered⟩
      obtain ⟨delivered, isDelivered, resolvedAgain⟩ :=
        grows.made.resolve_eq begun carriedAll layout complete
      rw [progress.settings, ← receivable.compat, resolvedAgain] at resolved
      cases resolved
      have unmarked : ((now.target packet).add packet).endOfStream = false := by
        rw [grows.made.endOfStream, Heap.share_append_of_eq ofHeap, List.any_eq_false]
        intro other ofShare
        have otherCuts : heap.Cuts other := by
          rcases List.mem_append.1 ofShare with earlier | last
          · exact drawn other earlier
          · rw [List.mem_singleton] at last
            rwa [last]
        simp [receivable.carriesStop otherCuts]
      rw [completedWith, if_pos completed, unmarked]
      refine ⟨progress.of_completed promises member ofHeap completed fresh ends, ?_⟩
      simp [isDelivered]
  | @kept grown _ _ _ incomplete recounts evicted =>
      have uncompleted : ¬ heap.CoveredBy (arrived ++ [packet]) := by
        rw [← grows.isComplete_iff, incomplete]
        simp
      have opened : heap.OpenAfter (arrived ++ [packet]) := ⟨begun, uncompleted⟩
      have coherent := coherent_kept progress.coherent progress.running fresh recounts
      have kept := progress.of_kept promises member ofHeap opened coherent grows.made recounts
      have fits : grown.heaps.entries.length - grown.settings.maxHeaps = 0 := by
        have bound := kept.length_entries_le
        rw [kept.settings]
        omega
      rw [fits] at evicted
      cases evicted
      rw [completedWith, if_neg fun completed => uncompleted completed.1, List.append_nil]
      exact ⟨kept, rfl⟩

/-- The same for any packet of a heap that is sent. -/
theorem Progress.of_inserts
    (progress : start.Progress sent arrived done now) (promises : start.Promises sent)
    (member : heap ∈ sent) (cuts : heap.Cuts packet)
    (drawn : ∀ other ∈ arrived, ∃ source ∈ sent, source.Cuts other)
    (room : (sent.filter fun other => other.OpenAfter (arrived ++ [packet])).length ≤
      start.settings.maxHeaps)
    (inserts : now.Inserts packet after events) :
    start.Progress sent (arrived ++ [packet]) (done ++ completedWith heap arrived packet) after ∧
      events = ((completedWith heap arrived packet).filterMap Heap.delivered?).map .heap := by
  have ofHeap := cuts.heapCount
  have finished := progress.fate?_isSome_iff promises member
  rw [← ofHeap] at finished
  have drawnShare : ∀ other ∈ heap.share arrived, heap.Cuts other := by
    intro other ofShare
    rw [Heap.share, List.mem_filter, decide_eq_true_eq] at ofShare
    obtain ⟨source, ofSent, sourceCuts⟩ := drawn other ofShare.1
    exact Heap.cuts_of_heapCount promises.distinct member ofSent sourceCuts ofShare.2
  cases inserts with
  | ignored passed recounts =>
      have covered : heap.CoveredBy arrived := by
        rcases passed with stopped | remembered
        · rw [progress.running] at stopped
          cases stopped
        · exact finished.1 remembered
      rw [completedWith, if_neg fun completed => completed.2 covered, List.append_nil]
      exact ⟨progress.of_ignored promises member ofHeap covered recounts, rfl⟩
  | accepted _ fresh _ accepts =>
      have uncovered : ¬ heap.CoveredBy arrived := by
        rw [← finished, fresh]
        simp
      exact progress.of_accepts promises member cuts drawnShare room uncovered fresh accepts
  | ending _ _ marked _ =>
      rw [(promises.receivable heap member).carriesStop cuts] at marked
      cases marked

end Step

end Reassembler
end Spead
