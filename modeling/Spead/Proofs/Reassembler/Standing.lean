import Spead.Proofs.Reassembler.Ending
import Spead.Proofs.Reassembler.History
import Spead.Proofs.Reassembler.Separation

/-!
Where heaps stand after what has been told of them.

A call ends one heap at most, apart from those that it gives up because the stream ends. So the
history has room for the heap that ends, however short it is. Heaps that are given up at the end of
the stream do not enter the history.
-/

namespace Spead
namespace Reassembler

/-! ## The heap that a call ends -/

section Ended

variable {before after : Reassembler} {packet : Packet} {events : List ReassemblyEvent}

/-- The heap that ended last is remembered, if anything is. -/
theorem Ends.fate?_self
    {count : Nat} {fate : Fate} (ends : before.Ends count fate after)
    (remembers : before.Remembers) (fresh : before.fate? count = none)
    (positive : 1 ≤ before.settings.historyLength) :
    after.fate? count = some fate := by
  have last : count ∈ after.history := by
    rw [ends.history_eq remembers fresh]
    exact mem_rtake_append positive (List.mem_singleton_self count)
  rw [ends.history] at last
  rw [ends.fate?, fate?_remember remembers, if_pos last, if_pos rfl]

theorem fate?_evictOldest
    {reassembler : Reassembler} (coherent : reassembler.Coherent)
    (positive : 1 ≤ reassembler.settings.historyLength) (keep : Nat) {excess : Nat}
    (single : excess ≤ 1) :
    ∀ ended ∈ finishes (evictOldest keep excess reassembler).2,
      (evictOldest keep excess reassembler).1.fate? ended.1 = some ended.2 := by
  intro ended member
  cases Nat.le_one_iff_eq_zero_or_eq_one.1 single with
  | inl none =>
      subst none
      cases member
  | inr one =>
      subst one
      simp only [evictOldest] at member ⊢
      split at member
      · cases member
      · next heap found =>
          obtain ⟨count, located⟩ := (Table.mem_values_iff coherent.ascending heap).1
            (List.mem_filter.1 (oldest?_mem found)).1
          rw [← coherent.keyed count heap located] at located
          cases List.mem_singleton.1 member
          exact (ends_evict reassembler heap).fate?_self coherent.remembers
            (coherent.fate?_of_get? located) positive

/-- A packet exceeds the bound on the table by one heap at most. -/
theorem excess_hold_le
    (coherent : before.Coherent) (room : before.heaps.entries.length ≤ before.settings.maxHeaps)
    (packet : Packet) :
    (before.hold packet).heaps.entries.length - before.settings.maxHeaps ≤ 1 := by
  simp only [hold]
  cases found : before.heaps.get? packet.heapCount with
  | some heap =>
      rw [Table.length_entries_put_of_get? coherent.ascending found]
      omega
  | none =>
      rw [Table.length_entries_put_of_absent coherent.ascending found]
      omega

/-- Whatever heap an accepted packet ends, it is remembered how. -/
theorem Accepts.fate?_of_mem_finishes
    (accepts : before.Accepts packet after events) (coherent : before.Coherent)
    (running : before.stopped = false) (fresh : before.fate? packet.heapCount = none)
    (room : before.heaps.entries.length ≤ before.settings.maxHeaps)
    (positive : 1 ≤ before.settings.historyLength) :
    ∀ ended ∈ finishes events, after.fate? ended.1 = some ended.2 := by
  have sameCount := count_target coherent packet
  have grownCount : ((before.target packet).add packet).count = packet.heapCount := sameCount
  have remembers := coherent.remembers
  intro ended member
  cases accepts with
  | oversized _ _ ends _ =>
      cases List.mem_singleton.1 member
      exact ends.fate?_self remembers fresh positive
  | refused objection ends _ =>
      have blames := PartialHeap.blames_of_objection? objection
      rw [sameCount] at blames
      rw [finishes, List.filterMap_cons_some blames.finish?_dropped] at member
      cases List.mem_singleton.1 member
      exact ends.fate?_self remembers fresh positive
  | unresolved _ _ unresolved ends _ =>
      have blames := PartialHeap.blames_of_resolve unresolved
      rw [grownCount] at blames
      rw [finishes, List.filterMap_cons_some blames.finish?_dropped] at member
      cases List.mem_singleton.1 member
      exact ends.fate?_self remembers fresh positive
  | completed _ _ resolved ends _ =>
      have told := PartialHeap.count_of_resolve resolved
      rw [grownCount] at told
      split at member
      · cases member
      · cases List.mem_singleton.1 member
        rw [told]
        exact ends.fate?_self remembers fresh positive
  | @kept grown _ _ _ _ recounts evicted _ =>
      have single := excess_hold_le coherent room packet
      rw [← recounts.heaps, ← settings_hold, ← recounts.settings] at single
      have limit : 1 ≤ grown.settings.historyLength := by
        rwa [recounts.settings, settings_hold]
      have remembered := fate?_evictOldest (coherent_kept coherent running fresh recounts) limit
        packet.heapCount single
      rw [evicted] at remembered
      exact remembered ended member

theorem fate?_of_mem_finishes_call
    {reassembler : Reassembler} (coherent : reassembler.Coherent)
    (room : reassembler.heaps.entries.length ≤ reassembler.settings.maxHeaps)
    (positive : 1 ≤ reassembler.settings.historyLength) (call : Call) :
    ∀ ended ∈ finishes (reassembler.call call).2,
      (reassembler.call call).1.fate? ended.1 = some ended.2 := by
  cases running : reassembler.stopped with
  | true => simp [call_of_stopped running, finishes]
  | false =>
      obtain ⟨_, same, fates⟩ := finishes_call coherent running call
      rw [same]
      intro ended member
      rw [fates]
      rcases reassembler.effects_cases call with ⟨nothing, _⟩ | ⟨packet, brought, fresh, _⟩
      · rw [nothing] at member
        cases member
      · exact (accepts_effects coherent brought fresh).fate?_of_mem_finishes coherent running fresh
          room positive ended member

end Ended

/-! ## Heaps that are cut off -/

theorem finish?_dropped_of_kind_ne
    {cause : ReassemblyError} (other : (ReassemblyEvent.dropped cause).kind ≠ .truncation) :
    (ReassemblyEvent.dropped cause).finish? = some (cause.heapCount, .abandoned) := by
  cases cause with
  | truncatedHeap count received length => exact absurd rfl other
  | _ => rfl

/-- A heap that is given up because the stream ends is unknown afterwards. -/
theorem heapState_of_truncation
    {reassembler : Reassembler} (coherent : reassembler.Coherent) (call : Call)
    {cause : ReassemblyError} (told : .dropped cause ∈ (reassembler.call call).2)
    (truncation : (ReassemblyEvent.dropped cause).kind = .truncation) :
    (reassembler.call call).1.heapState cause.heapCount = .unseen := by
  have others (running : reassembler.stopped = false)
      (own : .dropped cause ∈ (reassembler.effects call).2) : False :=
    (kind_ne_of_mem_effects coherent running call _ own).2 truncation
  rcases reassembler.call_cases call with ⟨_, same⟩ | ⟨running, _, same⟩ | ⟨running, _, same⟩
  · rw [same] at told
    cases told
  · rw [same] at told
    exact (others running told).elim
  · rw [same, List.mem_append] at told
    have midway := coherent_effects coherent running call
    rcases told with own | ofEnd
    · exact (others running own).elim
    · rcases mem_stop midway ofEnd with ended | ⟨heap, held, named⟩
      · cases ended
      · cases named
        rw [same, heapState_eq_unseen_iff, heaps_stop midway, fate?_stop]
        exact ⟨rfl, midway.fate?_of_get? held⟩

/-! ## Whole runs -/

/-- The heaps that events tell of stand as they say. -/
structure StandsAsTold (after : Reassembler) (told : List ReassemblyEvent) : Prop where
  complete : ∀ received, .heap received ∈ told →
    after.heapState received.count = .finished .complete
  abandoned : ∀ cause, .dropped cause ∈ told →
    (ReassemblyEvent.dropped cause).kind ≠ .truncation →
    after.heapState cause.heapCount = .finished .abandoned
  /-- What the end of the stream cuts off is not remembered. -/
  truncated : ∀ cause, .dropped cause ∈ told →
    (ReassemblyEvent.dropped cause).kind = .truncation →
    after.heapState cause.heapCount = .unseen

/-- After any calls, whatever the next one tells of a heap can be asked for afterwards, as long as
one finished heap is remembered at all. -/
theorem standsAsTold_call
    (settings : ReassemblerSettings) (calls : List Call) (call : Call)
    (positive : 1 ≤ settings.historyLength) :
    let answer := (Recording.run settings calls).reassembler.call call
    answer.1.StandsAsTold answer.2 := by
  intro answer
  have coherent := (Recording.faithful_run settings calls).coherent
  have room := Recording.length_heaps_run_le settings calls
  have limits := Recording.settings_run settings calls
  have remembered := fate?_of_mem_finishes_call coherent (by rwa [limits])
    (by rwa [limits]) call
  have finished {event : ReassemblyEvent} {count : Nat} {fate : Fate}
      (told : event ∈ answer.2) (finishes : event.finish? = some (count, fate)) :
      answer.1.heapState count = .finished fate := by
    rw [heapState_eq_finished_iff (coherent.answer call)]
    exact remembered (count, fate) (List.mem_filterMap.2 ⟨event, told, finishes⟩)
  constructor
  case complete => exact fun received told => finished told rfl
  case abandoned => exact fun cause told other => finished told (finish?_dropped_of_kind_ne other)
  case truncated => exact fun cause told => heapState_of_truncation coherent call told

/-- With room for one heap in the table and in the history, a heap that is driven out is remembered,
and one that is cut off afterwards is not. -/
theorem standsAsTold_call_room_for_one :
    let packet (count : Nat) : Packet := ⟨count, 5, 0, 2, 48, [], [1, 2]⟩
    let settings : ReassemblerSettings := { maxHeaps := 1, historyLength := 1 }
    let answer := (Recording.run settings [.insert (packet 7)]).reassembler.call
      (.insert (packet 8))
    let last := (Recording.run settings [.insert (packet 7), .insert (packet 8)]).reassembler.call
      .stop
    1 ≤ settings.historyLength ∧
      answer.1.StandsAsTold answer.2 ∧ answer.2 = [.dropped (.evictedHeap 7 2 5 1)] ∧
      answer.1.heapState 7 = .finished .abandoned ∧
      last.1.StandsAsTold last.2 ∧
      last.2 = [.dropped (.truncatedHeap 8 2 5), .endOfStream] ∧ last.1.heapState 8 = .unseen := by
  intro packet settings answer last
  have positive : 1 ≤ settings.historyLength := by decide
  have stands : answer.1.StandsAsTold answer.2 :=
    standsAsTold_call settings [.insert (packet 7)] (.insert (packet 8)) positive
  have standsLast : last.1.StandsAsTold last.2 :=
    standsAsTold_call settings [.insert (packet 7), .insert (packet 8)] .stop positive
  have told : answer.2 = [.dropped (.evictedHeap 7 2 5 1)] := by
    decide +kernel
  have toldLast : last.2 = [.dropped (.truncatedHeap 8 2 5), .endOfStream] := by
    decide +kernel
  refine ⟨positive, stands, told, ?_, standsLast, toldLast, ?_⟩
  · exact stands.abandoned (.evictedHeap 7 2 5 1) (by simp [told]) (by decide)
  · exact standsLast.truncated (.truncatedHeap 8 2 5) (by simp [toldLast]) (by decide)

/-- A heap that is cut off is not one that has been abandoned. -/
theorem not_forall_dropped_abandoned :
    ¬ ∀ (settings : ReassemblerSettings) (calls : List Call) (call : Call),
      1 ≤ settings.historyLength →
      let answer := (Recording.run settings calls).reassembler.call call
      (∀ received, .heap received ∈ answer.2 →
        answer.1.heapState received.count = .finished .complete) ∧
      ∀ cause, .dropped cause ∈ answer.2 →
        answer.1.heapState cause.heapCount = .finished .abandoned := by
  intro all
  have told : ReassemblyEvent.dropped (.truncatedHeap 7 2 5) ∈
      ((Recording.run {} [.insert ⟨7, 5, 0, 2, 48, [], [1, 2]⟩]).reassembler.call .stop).2 := by
    decide +kernel
  have state := (all {} [.insert ⟨7, 5, 0, 2, 48, [], [1, 2]⟩] .stop (by decide)).2 _ told
  cases state

end Reassembler
end Spead
