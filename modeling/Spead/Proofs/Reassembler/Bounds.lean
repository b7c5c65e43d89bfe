import Mathlib.Algebra.Order.BigOperators.Group.List
import Mathlib.Algebra.Order.Ring.Nat
import Spead.Proofs.Reassembler.Run

/-!
What a reassembler holds at most.

The table, the history with its fates and the notes of offsets are changed together by every call.
After each call they fit each other again, the table has no more heaps than it may have, and so
the payloads in it have a bound that depends on the settings alone.
-/

namespace Spead
namespace Reassembler

/-! ## Room in the table -/

/-- Each round of eviction makes room for one heap, as long as there is more than one. -/
theorem length_evictOldest_le
    {reassembler : Reassembler} (coherent : reassembler.Coherent) {keep excess room : Nat}
    (positive : 1 ≤ room) (bound : reassembler.heaps.entries.length ≤ excess + room) :
    (evictOldest keep excess reassembler).1.heaps.entries.length ≤ room := by
  induction excess generalizing reassembler with
  | zero => simpa [evictOldest] using bound
  | succ excess inductionHypothesis =>
      simp only [evictOldest]
      split
      · next nobody =>
          -- All heaps of the table have the number that is kept, so there is one at most.
          have alone : ∀ count ∈ reassembler.heaps.keys, count ∈ [keep] := by
            intro count member
            rw [Table.mem_keys_iff, Option.isSome_iff_exists] at member
            obtain ⟨heap, found⟩ := member
            have held : heap ∈ reassembler.heaps.values :=
              (Table.mem_values_iff coherent.ascending heap).2 ⟨count, found⟩
            rw [oldest?_eq_none_iff, List.filter_eq_nil_iff] at nobody
            have same := nobody heap held
            rw [coherent.keyed count heap found] at same
            simpa using same
          have few := ((Table.nodup_keys coherent.ascending).subperm alone).length_le
          rw [Table.length_entries_eq_length_keys]
          exact few.trans positive
      · next heap found =>
          have member := (List.mem_filter.1 (oldest?_mem found)).1
          obtain ⟨count, located⟩ := (Table.mem_values_iff coherent.ascending heap).1 member
          rw [← coherent.keyed count heap located] at located
          have ends := ends_evict reassembler heap
          apply inductionHypothesis (ends.coherent coherent)
          have shorter := Table.length_entries_erase_lt located
          rw [ends.heaps]
          omega

/-! ## Sequence numbers, sizes and notes -/

/-- The collections of a reassembler fit each other, and the heaps of the table fit the
settings. -/
structure Tidy (reassembler : Reassembler) : Prop where
  ordered : reassembler.finished.Ascending
  noted : reassembler.offsets.highest.Ascending
  sequence_lt : ∀ count heap, reassembler.heaps.get? count = some heap →
    heap.sequence < reassembler.nextSequence
  distinct : ∀ left right heap other, reassembler.heaps.get? left = some heap →
    reassembler.heaps.get? right = some other → heap.sequence = other.sequence → left = right
  size : ∀ count heap, reassembler.heaps.get? count = some heap →
    heap.heapLength ≤ reassembler.settings.maxHeapSize
  tracked : reassembler.stopped = false → ∀ count,
    (reassembler.offsets.highest.get? count).isSome ↔ (reassembler.heaps.get? count).isSome

theorem tidy_new (settings : ReassemblerSettings) : (new settings).Tidy where
  ordered := Table.ascending_empty
  noted := Table.ascending_empty
  sequence_lt := by simp [new]
  distinct := by simp [new]
  size := by simp [new]
  tracked := by simp [new]

theorem ascending_finished_remember
    {reassembler : Reassembler} (ordered : reassembler.finished.Ascending)
    (count : Nat) (fate : Fate) :
    (reassembler.remember count fate).finished.Ascending := by
  unfold remember
  split
  · exact ordered
  · exact Table.ascending_foldl_erase (Table.ascending_put ordered count fate) _

section Tidy

variable {before after : Reassembler} {packet : Packet} {events : List ReassemblyEvent}

theorem Recounts.tidy (recounts : before.Recounts after) (tidy : before.Tidy) : after.Tidy where
  ordered := by
    rw [recounts.finished]
    exact tidy.ordered
  noted := by
    rw [recounts.offsets]
    exact tidy.noted
  sequence_lt := by
    rw [recounts.heaps, recounts.nextSequence]
    exact tidy.sequence_lt
  distinct := by
    rw [recounts.heaps]
    exact tidy.distinct
  size := by
    rw [recounts.heaps, recounts.settings]
    exact tidy.size
  tracked := by
    rw [recounts.stopped, recounts.offsets, recounts.heaps]
    exact tidy.tracked

theorem Ends.tidy
    {count : Nat} {fate : Fate} (ends : before.Ends count fate after)
    (sequence : before.nextSequence ≤ after.nextSequence) (tidy : before.Tidy) :
    after.Tidy := by
  have earlier {other : Nat} {heap : PartialHeap} (found : after.heaps.get? other = some heap) :
      before.heaps.get? other = some heap := by
    rw [ends.get?] at found
    split at found
    · cases found
    · exact found
  constructor
  case ordered =>
    rw [ends.finished]
    exact ascending_finished_remember tidy.ordered count fate
  case noted =>
    rw [ends.offsets]
    exact Table.ascending_erase tidy.noted count
  case sequence_lt =>
    intro other heap found
    exact (tidy.sequence_lt other heap (earlier found)).trans_le sequence
  case distinct =>
    intro left right heap other found foundOther same
    exact tidy.distinct left right heap other (earlier found) (earlier foundOther) same
  case size =>
    intro other heap found
    rw [ends.settings]
    exact tidy.size other heap (earlier found)
  case tracked =>
    intro running other
    rw [ends.stopped] at running
    rw [ends.get?, ends.offsets, OffsetTracker.forget, Table.get?_erase]
    split
    · rfl
    · exact tidy.tracked running other

theorem tidy_evictOldest
    (keep excess : Nat) {reassembler : Reassembler} (tidy : reassembler.Tidy) :
    (evictOldest keep excess reassembler).1.Tidy := by
  induction excess generalizing reassembler with
  | zero => exact tidy
  | succ excess inductionHypothesis =>
      simp only [evictOldest]
      split
      · exact tidy
      · next heap _ =>
          apply inductionHypothesis
          refine (ends_evict reassembler heap).tidy ?_ tidy
          exact (nextSequence_remember reassembler heap.count .abandoned).ge

theorem nextSequence_le_taking (reassembler : Reassembler) (packet : Packet) :
    reassembler.nextSequence ≤ (reassembler.taking packet).nextSequence := by
  simp only [taking]
  split <;> omega

theorem heapLength_target_le
    (tidy : before.Tidy)
    (fits : before.heaps.get? packet.heapCount = none →
      packet.heapLength ≤ before.settings.maxHeapSize) :
    (before.target packet).heapLength ≤ before.settings.maxHeapSize := by
  unfold target
  cases found : before.heaps.get? packet.heapCount with
  | none => exact fits found
  | some heap => exact tidy.size packet.heapCount heap found

/-- The heap that a packet is added to has a number below the next one, which no other heap has. -/
theorem sequence_target
    (tidy : before.Tidy) (packet : Packet) :
    (before.target packet).sequence < (before.taking packet).nextSequence ∧
      ∀ count heap, before.heaps.get? count = some heap →
        heap.sequence = (before.target packet).sequence → count = packet.heapCount := by
  simp only [target, taking, Table.contains_eq_isSome_get?]
  cases found : before.heaps.get? packet.heapCount with
  | none =>
      refine ⟨Nat.lt_succ_self _, ?_⟩
      intro count heap held same
      have below := tidy.sequence_lt count heap held
      rw [same] at below
      exact absurd below (Nat.lt_irrefl _)
  | some own =>
      refine ⟨tidy.sequence_lt packet.heapCount own found, ?_⟩
      intro count heap held same
      exact tidy.distinct count packet.heapCount heap own held found same

theorem tidy_hold
    (tidy : before.Tidy)
    (fits : before.heaps.get? packet.heapCount = none →
      packet.heapLength ≤ before.settings.maxHeapSize) :
    (before.hold packet).Tidy := by
  obtain ⟨below, alone⟩ := sequence_target tidy packet
  constructor
  case ordered => exact tidy.ordered
  case noted => exact Table.ascending_put tidy.noted _ _
  case sequence_lt =>
    intro count heap found
    rw [get?_hold] at found
    split at found
    · cases found
      exact below
    · exact (tidy.sequence_lt count heap found).trans_le (nextSequence_le_taking before packet)
  case distinct =>
    intro left right heap other found foundOther same
    rw [get?_hold] at found foundOther
    split at found <;> split at foundOther
    · next isLeft isRight => rw [isLeft, isRight]
    · next isLeft _ =>
        cases found
        rw [isLeft, alone right other foundOther same.symm]
    · next isRight =>
        cases foundOther
        rw [isRight, alone left heap found same]
    · exact tidy.distinct left right heap other found foundOther same
  case size =>
    intro count heap found
    rw [get?_hold] at found
    split at found
    · cases found
      exact heapLength_target_le tidy fits
    · exact tidy.size count heap found
  case tracked =>
    intro running count
    rw [get?_hold]
    change (Table.get? (Table.put _ _ _) count).isSome ↔ _
    rw [Table.get?_put]
    split
    · simp
    · exact tidy.tracked running count

theorem Accepts.tidy
    (accepts : before.Accepts packet after events) (tidy : before.Tidy) :
    after.Tidy := by
  have ended {fate : Fate} (ends : before.Ends packet.heapCount fate after)
      (taken : before.Admits packet after) : after.Tidy := by
    refine ends.tidy ?_ tidy
    rw [taken.nextSequence]
    exact nextSequence_le_taking before packet
  cases accepts with
  | oversized _ _ ends sequence => exact ends.tidy sequence.ge tidy
  | refused _ ends taken => exact ended ends taken
  | unresolved _ _ _ ends taken => exact ended ends taken
  | completed _ _ _ ends taken => exact ended ends taken
  | @kept grown _ _ _ _ recounts evicted taken =>
      have tidied := tidy_evictOldest packet.heapCount
        (grown.heaps.entries.length - grown.settings.maxHeaps)
        (recounts.tidy (tidy_hold tidy taken.fits))
      rwa [evicted] at tidied

theorem Accepts.room
    (accepts : before.Accepts packet after events) (coherent : before.Coherent)
    (running : before.stopped = false) (fresh : before.fate? packet.heapCount = none)
    (positive : 1 ≤ before.settings.maxHeaps)
    (room : before.heaps.entries.length ≤ before.settings.maxHeaps) :
    after.heaps.entries.length ≤ before.settings.maxHeaps := by
  have ended {fate : Fate} (ends : before.Ends packet.heapCount fate after) :
      after.heaps.entries.length ≤ before.settings.maxHeaps := by
    rw [ends.heaps]
    exact (List.length_filter_le _ _).trans room
  cases accepts with
  | oversized _ _ ends => exact ended ends
  | refused _ ends => exact ended ends
  | unresolved _ _ _ ends => exact ended ends
  | completed _ _ _ ends => exact ended ends
  | @kept grown _ _ _ _ recounts evicted =>
      rw [recounts.settings, settings_hold] at evicted
      have shortened :
          (evictOldest packet.heapCount
            (grown.heaps.entries.length - before.settings.maxHeaps) grown).1.heaps.entries.length ≤
            before.settings.maxHeaps :=
        length_evictOldest_le (coherent_kept coherent running fresh recounts) positive (by omega)
      rwa [evicted] at shortened

theorem tidy_stop (tidy : before.Tidy) : before.stop.1.Tidy := by
  unfold stop
  split
  · exact tidy
  · exact ⟨tidy.ordered, tidy.noted, by simp, by simp, by simp, by simp⟩

theorem Inserts.tidy (inserts : before.Inserts packet after events) (tidy : before.Tidy) :
    after.Tidy := by
  cases inserts with
  | ignored _ recounts => exact recounts.tidy tidy
  | accepted _ _ _ accepts => exact accepts.tidy tidy
  | ending _ _ _ accepts => exact tidy_stop (accepts.tidy tidy)

theorem Inserts.room
    (inserts : before.Inserts packet after events) (coherent : before.Coherent)
    (positive : 1 ≤ before.settings.maxHeaps)
    (room : before.heaps.entries.length ≤ before.settings.maxHeaps) :
    after.heaps.entries.length ≤ before.settings.maxHeaps := by
  cases inserts with
  | ignored _ recounts =>
      rw [recounts.heaps]
      exact room
  | accepted running fresh _ accepts => exact accepts.room coherent running fresh positive room
  | ending running fresh _ accepts =>
      rw [heaps_stop (accepts.coherent coherent running fresh)]
      exact Nat.zero_le _

variable {call : Call}

theorem Answers.tidy (answers : before.Answers call after events) (tidy : before.Tidy) :
    after.Tidy := by
  cases answers with
  | packet _ inserts => exact inserts.tidy tidy
  | malformed _ recounts => exact recounts.tidy tidy
  | stop _ => exact tidy_stop tidy

theorem Answers.room
    (answers : before.Answers call after events) (coherent : before.Coherent)
    (positive : 1 ≤ before.settings.maxHeaps)
    (room : before.heaps.entries.length ≤ before.settings.maxHeaps) :
    after.heaps.entries.length ≤ before.settings.maxHeaps := by
  cases answers with
  | packet _ inserts => exact inserts.room coherent positive room
  | malformed _ recounts =>
      rw [recounts.heaps]
      exact room
  | stop _ =>
      rw [heaps_stop coherent]
      exact Nat.zero_le _

end Tidy

/-! ## Whole runs -/

namespace Recording

theorem tidy_run (settings : ReassemblerSettings) (calls : List Call) :
    (run settings calls).reassembler.Tidy := by
  induction calls using List.reverseRecOn with
  | nil => exact tidy_new settings
  | append_singleton calls call inductionHypothesis =>
      rw [run_append_singleton]
      have coherent := (faithful_run settings calls).coherent
      exact (answers_call coherent call).tidy inductionHypothesis

theorem length_heaps_run_le (settings : ReassemblerSettings) (calls : List Call) :
    (run settings calls).reassembler.heaps.entries.length ≤ max 1 settings.maxHeaps := by
  induction calls using List.reverseRecOn with
  | nil => exact Nat.zero_le _
  | append_singleton calls call inductionHypothesis =>
      rw [run_append_singleton]
      have coherent := (faithful_run settings calls).coherent
      have limit :
          (run settings calls).reassembler.settings.maxHeaps = max 1 settings.maxHeaps := by
        rw [settings_run]
        rfl
      rw [← limit] at inductionHypothesis ⊢
      refine (answers_call coherent call).room coherent ?_ inductionHypothesis
      rw [limit]
      exact Nat.le_max_left _ _

end Recording

/-- What holds of a reassembler with the given settings between two calls. -/
structure WithinBounds (settings : ReassemblerSettings) (reassembler : Reassembler) : Prop where
  room : reassembler.heaps.entries.length ≤ max 1 settings.maxHeaps
  keys_distinct : reassembler.heaps.keys.Nodup
  keyed : ∀ count heap, (count, heap) ∈ reassembler.heaps.entries → heap.count = count
  sequences_distinct : (reassembler.heaps.values.map PartialHeap.sequence).Nodup
  sequence_lt : ∀ heap ∈ reassembler.heaps.values, heap.sequence < reassembler.nextSequence
  /-- No heap is in the table and among the finished ones. -/
  unfinished : ∀ count ∈ reassembler.heaps.keys, count ∉ reassembler.finished.keys
  history_distinct : reassembler.history.Nodup
  /-- The history lists exactly the heaps of which it is known how they ended. -/
  history_perm : reassembler.history.Perm reassembler.finished.keys
  history_within : reassembler.history.length ≤ settings.historyLength
  payload_length : ∀ heap ∈ reassembler.heaps.values, heap.payload.length = heap.heapLength
  size : ∀ heap ∈ reassembler.heaps.values, heap.heapLength ≤ settings.maxHeapSize
  received_lt : ∀ heap ∈ reassembler.heaps.values, ∀ position ∈ heap.received,
    position < heap.heapLength
  incomplete : ∀ heap ∈ reassembler.heaps.values, heap.isComplete = false
  /-- Offsets are noted of exactly the heaps in the table. -/
  tracked : reassembler.stopped = false →
    reassembler.offsets.highest.keys.Perm reassembler.heaps.keys
  emptied : reassembler.stopped = true → reassembler.heaps = {}

/-- Bytes that are kept of incomplete heaps. -/
def buffered (reassembler : Reassembler) : Nat :=
  (reassembler.heaps.values.map fun heap => heap.payload.length).sum

theorem WithinBounds.buffered_le
    {settings : ReassemblerSettings} {reassembler : Reassembler}
    (bounds : reassembler.WithinBounds settings) :
    reassembler.buffered ≤ max 1 settings.maxHeaps * settings.maxHeapSize := by
  have each : ∀ length ∈ reassembler.heaps.values.map fun heap => heap.payload.length,
      length ≤ settings.maxHeapSize := by
    intro length member
    obtain ⟨heap, held, rfl⟩ := List.mem_map.1 member
    rw [bounds.payload_length heap held]
    exact bounds.size heap held
  have total := List.sum_le_card_nsmul _ _ each
  rw [List.length_map, Table.values, List.length_map, nsmul_eq_mul] at total
  exact total.trans (Nat.mul_le_mul_right _ bounds.room)

theorem Tidy.nodup_sequences
    {reassembler : Reassembler} (tidy : reassembler.Tidy) (coherent : reassembler.Coherent) :
    (reassembler.heaps.values.map PartialHeap.sequence).Nodup := by
  have keys := Table.nodup_keys coherent.ascending
  rw [Table.keys, List.Nodup, List.pairwise_map] at keys
  rw [Table.values, List.map_map, List.Nodup, List.pairwise_map]
  apply keys.imp_of_mem
  intro left right leftMember rightMember different same
  have leftFound := (Table.get?_eq_some_iff coherent.ascending left.1 left.2).2 leftMember
  have rightFound := (Table.get?_eq_some_iff coherent.ascending right.1 right.2).2 rightMember
  exact different (tidy.distinct left.1 right.1 left.2 right.2 leftFound rightFound same)

/-- After any calls the collections of a reassembler fit each other, and its payloads have no more
bytes than the settings allow for. -/
theorem withinBounds_run (settings : ReassemblerSettings) (calls : List Call) :
    let reassembler := (Recording.run settings calls).reassembler
    reassembler.WithinBounds settings ∧
      reassembler.buffered ≤ max 1 settings.maxHeaps * settings.maxHeapSize := by
  intro reassembler
  have faithful : reassembler.Faithful (Recording.run settings calls).block :=
    Recording.faithful_run settings calls
  have tidy : reassembler.Tidy := Recording.tidy_run settings calls
  have coherent := faithful.coherent
  have configured : reassembler.settings = (new settings).settings :=
    Recording.settings_run settings calls
  have found {heap : PartialHeap} (held : heap ∈ reassembler.heaps.values) :
      ∃ count, reassembler.heaps.get? count = some heap :=
    (Table.mem_values_iff coherent.ascending heap).1 held
  suffices bounds : reassembler.WithinBounds settings from ⟨bounds, bounds.buffered_le⟩
  constructor
  case room => exact Recording.length_heaps_run_le settings calls
  case keys_distinct => exact Table.nodup_keys coherent.ascending
  case keyed =>
    intro count heap member
    exact coherent.keyed count heap
      ((Table.get?_eq_some_iff coherent.ascending count heap).2 member)
  case sequences_distinct => exact tidy.nodup_sequences coherent
  case sequence_lt =>
    intro heap held
    obtain ⟨count, located⟩ := found held
    exact tidy.sequence_lt count heap located
  case unfinished =>
    intro count member finished
    rw [Table.mem_keys_iff] at member finished
    rw [coherent.unfinished count finished] at member
    cases member
  case history_distinct => exact coherent.remembers.distinct
  case history_perm =>
    apply (List.perm_ext_iff_of_nodup coherent.remembers.distinct
      (Table.nodup_keys tidy.ordered)).2
    intro count
    rw [Table.mem_keys_iff]
    exact coherent.remembers.listed count
  case history_within =>
    have within := coherent.remembers.within
    rwa [configured] at within
  case payload_length =>
    intro heap held
    obtain ⟨count, located⟩ := found held
    rw [← Buffer.length_toBytes]
    exact (faithful.made count heap located).length
  case size =>
    intro heap held
    obtain ⟨count, located⟩ := found held
    have size := tidy.size count heap located
    rwa [configured] at size
  case received_lt =>
    intro heap held
    obtain ⟨count, located⟩ := found held
    exact (faithful.made count heap located).received_lt
  case incomplete =>
    intro heap held
    obtain ⟨count, located⟩ := found held
    exact faithful.incomplete count heap located
  case tracked =>
    intro running
    exact Table.perm_keys_of_get? tidy.noted coherent.ascending (tidy.tracked running)
  case emptied => exact coherent.emptied

end Reassembler
end Spead
