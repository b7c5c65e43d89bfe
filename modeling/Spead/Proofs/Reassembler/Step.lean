import Mathlib.Data.List.DropRight
import Spead.Proofs.Reassembler.Block
import Spead.Proofs.Table
import Spead.Reassembler.Basic

/-!
What one packet does to a reassembler.

A heap ends in one way only: it leaves the table and is remembered (`Ends`). A packet touches the
table at its own heap and otherwise only takes heaps out; what it tells is about its own heap, or
about heaps that were in the table.
-/

namespace Spead

/-! ## The last items of a list -/

theorem rtake_rtake_append {element : Type} (items : List element) (last : element) (count : Nat) :
    (items.rtake count ++ [last]).rtake count = (items ++ [last]).rtake count := by
  cases count with
  | zero => simp
  | succ count =>
      rw [List.rtake_concat_succ, List.rtake_concat_succ]
      congr 1
      simp only [List.rtake_eq_reverse_take_reverse, List.reverse_reverse, List.take_take]
      congr 2
      omega

theorem mem_rtake_append
    {element : Type} {earlier later : List element} {count : Nat} {item : element}
    (fits : later.length ≤ count) (member : item ∈ later) :
    item ∈ (earlier ++ later).rtake count := by
  have short : (earlier ++ later).length - count ≤ earlier.length := by
    rw [List.length_append]
    omega
  rw [List.rtake, List.drop_append_of_le_length short]
  exact List.mem_append_right _ member

theorem mem_of_mem_rtake
    {element : Type} {items : List element} {count : Nat} {item : element}
    (member : item ∈ items.rtake count) :
    item ∈ items :=
  (List.drop_sublist _ items).mem member

namespace Reassembler

/-! ## Remembered heaps -/

/-- The history lists the heaps that are remembered, each once, and is not longer than it may
be. -/
structure Remembers (reassembler : Reassembler) : Prop where
  listed : ∀ count, count ∈ reassembler.history ↔ (reassembler.fate? count).isSome
  distinct : reassembler.history.Nodup
  within : reassembler.history.length ≤ reassembler.settings.historyLength

theorem mem_enqueue
    {reassembler : Reassembler} (remembers : reassembler.Remembers) (count other : Nat) :
    other ∈ reassembler.enqueue count ↔ other = count ∨ other ∈ reassembler.history := by
  unfold enqueue
  split
  · next known =>
      rw [Table.contains_eq_isSome_get?] at known
      have member := (remembers.listed count).2 known
      constructor
      · exact Or.inr
      · rintro (rfl | earlier)
        · exact member
        · exact earlier
  · rw [List.mem_append, List.mem_singleton, or_comm]

theorem nodup_enqueue
    {reassembler : Reassembler} (remembers : reassembler.Remembers) (count : Nat) :
    (reassembler.enqueue count).Nodup := by
  unfold enqueue
  split
  · exact remembers.distinct
  · next unknown =>
      rw [Table.contains_eq_isSome_get?] at unknown
      rw [List.nodup_append_comm, List.singleton_append, List.nodup_cons, remembers.listed]
      exact ⟨unknown, remembers.distinct⟩

theorem enqueue_of_fresh
    {reassembler : Reassembler} {count : Nat} (fresh : reassembler.fate? count = none) :
    reassembler.enqueue count = reassembler.history ++ [count] := by
  have unknown : reassembler.finished.contains count = false := by
    rw [Table.contains_eq_isSome_get?]
    change (reassembler.fate? count).isSome = false
    rw [fresh]
    rfl
  simp [enqueue, unknown]

theorem history_remember
    (reassembler : Reassembler) (count : Nat) (fate : Fate)
    (within : reassembler.history.length ≤ reassembler.settings.historyLength) :
    (reassembler.remember count fate).history =
      (reassembler.enqueue count).rtake reassembler.settings.historyLength := by
  unfold remember
  split
  · next none =>
      rw [none, Nat.le_zero, List.length_eq_zero_iff] at within
      rw [none, within]
      simp
  · rfl

/-- A heap that is put into the history is known by how it ended, unless nothing is kept. -/
theorem fate?_remember
    {reassembler : Reassembler} (remembers : reassembler.Remembers)
    (count : Nat) (fate : Fate) (other : Nat) :
    (reassembler.remember count fate).fate? other =
      if other ∈ (reassembler.remember count fate).history then
        if other = count then some fate else reassembler.fate? other
      else
        none := by
  have distinct := nodup_enqueue remembers count
  have mem_queue := mem_enqueue remembers count other
  unfold remember
  split
  · next nothing =>
      have within := remembers.within
      rw [nothing, Nat.le_zero, List.length_eq_zero_iff] at within
      have forgotten : reassembler.fate? other = none := by
        rw [← Option.not_isSome_iff_eq_none, ← remembers.listed, within]
        simp
      simp [within, forgotten]
  · generalize reassembler.enqueue count = queue at distinct mem_queue
    dsimp only [fate?]
    rw [Table.get?_foldl_erase, Table.get?_put]
    set surplus := queue.length - reassembler.settings.historyLength
    -- As no number is queued twice, what is dropped is not among what stays.
    have apart : other ∈ queue.take surplus → other ∉ queue.drop surplus := by
      intro early late
      exact List.disjoint_take_drop distinct (Nat.le_refl surplus) early late
    have parts : other ∈ queue.take surplus ∨ other ∈ queue.drop surplus ↔ other ∈ queue := by
      rw [← List.mem_append, List.take_append_drop]
    by_cases early : other ∈ queue.take surplus
    · rw [if_pos early, if_neg (apart early)]
    · rw [if_neg early]
      by_cases late : other ∈ queue.drop surplus
      · rw [if_pos late]
      · have outside : ¬ (other = count ∨ other ∈ reassembler.history) := by
          rw [← mem_queue, ← parts]
          exact not_or.2 ⟨early, late⟩
        rw [not_or, remembers.listed, Option.not_isSome_iff_eq_none] at outside
        rw [if_neg late, if_neg outside.1]
        exact outside.2

theorem settings_remember (reassembler : Reassembler) (count : Nat) (fate : Fate) :
    (reassembler.remember count fate).settings = reassembler.settings := by
  unfold remember
  split <;> rfl

theorem stopped_remember (reassembler : Reassembler) (count : Nat) (fate : Fate) :
    (reassembler.remember count fate).stopped = reassembler.stopped := by
  unfold remember
  split <;> rfl

/-- What is remembered depends on what was and on the settings. -/
theorem remember_congr
    {left right : Reassembler} (history : left.history = right.history)
    (finished : left.finished = right.finished) (settings : left.settings = right.settings)
    (count : Nat) (fate : Fate) :
    (left.remember count fate).history = (right.remember count fate).history ∧
      (left.remember count fate).finished = (right.remember count fate).finished := by
  unfold remember
  rw [settings]
  split
  · exact ⟨history, finished⟩
  · simp only [enqueue, history, finished, and_self]

theorem nextSequence_remember (reassembler : Reassembler) (count : Nat) (fate : Fate) :
    (reassembler.remember count fate).nextSequence = reassembler.nextSequence := by
  unfold remember
  split <;> rfl

theorem mem_history_remember
    {reassembler : Reassembler} (remembers : reassembler.Remembers) {count : Nat} {fate : Fate}
    {other : Nat} (member : other ∈ (reassembler.remember count fate).history) :
    other = count ∨ other ∈ reassembler.history := by
  rw [history_remember reassembler count fate remembers.within] at member
  exact (mem_enqueue remembers count other).1 (List.mem_of_mem_drop member)

theorem Remembers.remember
    {reassembler : Reassembler} (remembers : reassembler.Remembers) (count : Nat) (fate : Fate) :
    (reassembler.remember count fate).Remembers where
  listed := by
    intro other
    rw [fate?_remember remembers]
    constructor
    · intro member
      rw [if_pos member]
      split
      · rfl
      · next different =>
          rcases mem_history_remember remembers member with same | earlier
          · exact absurd same different
          · exact (remembers.listed other).1 earlier
    · intro known
      by_contra absent
      rw [if_neg absent] at known
      cases known
  distinct := by
    rw [history_remember reassembler count fate remembers.within]
    exact (nodup_enqueue remembers count).sublist (List.drop_sublist _ _)
  within := by
    rw [history_remember reassembler count fate remembers.within, settings_remember, List.rtake,
      List.length_drop]
    omega

/-! ## Coherence -/

/-- The table is a map from the numbers of heaps; no heap of it is remembered as finished, and it
is empty once the stream has ended. -/
structure Coherent (reassembler : Reassembler) : Prop where
  ascending : reassembler.heaps.Ascending
  keyed : ∀ count heap, reassembler.heaps.get? count = some heap → heap.count = count
  unfinished : ∀ count, (reassembler.fate? count).isSome → reassembler.heaps.get? count = none
  emptied : reassembler.stopped = true → reassembler.heaps = {}
  remembers : reassembler.Remembers

theorem Coherent.fate?_of_get?
    {reassembler : Reassembler} (coherent : reassembler.Coherent) {count : Nat}
    {heap : PartialHeap} (held : reassembler.heaps.get? count = some heap) :
    reassembler.fate? count = none := by
  by_contra known
  rw [coherent.unfinished count (Option.isSome_iff_ne_none.2 known)] at held
  cases held

theorem coherent_new (settings : ReassemblerSettings) : (new settings).Coherent where
  ascending := Table.ascending_empty
  keyed := by simp [new]
  unfinished := by simp [new]
  emptied := fun _ => rfl
  remembers := ⟨by simp [new, fate?], by simp [new], Nat.zero_le _⟩

structure Ends
    (before : Reassembler) (count : Nat) (fate : Fate) (after : Reassembler) : Prop where
  heaps : after.heaps = before.heaps.erase count
  history : after.history = (before.remember count fate).history
  finished : after.finished = (before.remember count fate).finished
  offsets : after.offsets = before.offsets.forget count
  stopped : after.stopped = before.stopped
  settings : after.settings = before.settings

theorem ends_finish (reassembler : Reassembler) (count : Nat) (fate : Fate) :
    reassembler.Ends count fate (reassembler.finish count fate) :=
  ⟨rfl, rfl, rfl, rfl, stopped_remember _ _ _, settings_remember _ _ _⟩

theorem ends_abandon (reassembler : Reassembler) (count : Nat) (cause : ReassemblyError) :
    reassembler.Ends count .abandoned (reassembler.abandon count cause).1 :=
  ⟨rfl, rfl, rfl, rfl, stopped_remember _ _ _, settings_remember _ _ _⟩

theorem ends_evict (reassembler : Reassembler) (heap : PartialHeap) :
    reassembler.Ends heap.count .abandoned (reassembler.evict heap).1 :=
  ⟨rfl, rfl, rfl, rfl, stopped_remember _ _ _, settings_remember _ _ _⟩

theorem Ends.get?
    {before after : Reassembler} {count : Nat} {fate : Fate}
    (ends : before.Ends count fate after) (other : Nat) :
    after.heaps.get? other = if other = count then none else before.heaps.get? other := by
  rw [ends.heaps, Table.get?_erase]

theorem Ends.fate?
    {before after : Reassembler} {count : Nat} {fate : Fate}
    (ends : before.Ends count fate after) (other : Nat) :
    after.fate? other = (before.remember count fate).fate? other := by
  rw [Reassembler.fate?, ends.finished]
  rfl

theorem Ends.history_eq
    {before after : Reassembler} {count : Nat} {fate : Fate}
    (ends : before.Ends count fate after) (remembers : before.Remembers)
    (fresh : before.fate? count = none) :
    after.history = (before.history ++ [count]).rtake before.settings.historyLength := by
  rw [ends.history, history_remember before count fate remembers.within, enqueue_of_fresh fresh]

theorem Ends.remembers
    {before after : Reassembler} {count : Nat} {fate : Fate}
    (ends : before.Ends count fate after) (remembers : before.Remembers) :
    after.Remembers where
  listed := by
    intro other
    rw [ends.history, ends.fate?]
    exact (remembers.remember count fate).listed other
  distinct := by
    rw [ends.history]
    exact (remembers.remember count fate).distinct
  within := by
    rw [ends.history, ends.settings, ← settings_remember before count fate]
    exact (remembers.remember count fate).within

theorem Ends.coherent
    {before after : Reassembler} {count : Nat} {fate : Fate}
    (ends : before.Ends count fate after) (coherent : before.Coherent) :
    after.Coherent where
  ascending := by
    rw [ends.heaps]
    exact Table.ascending_erase coherent.ascending count
  keyed := by
    intro other heap found
    rw [ends.get?] at found
    split at found
    · cases found
    · exact coherent.keyed other heap found
  unfinished := by
    intro other finished
    rw [ends.get?]
    split
    · rfl
    · next different =>
        rw [← ends.remembers coherent.remembers |>.listed, ends.history] at finished
        rcases mem_history_remember coherent.remembers finished with same | earlier
        · exact absurd same different
        · exact coherent.unfinished other ((coherent.remembers.listed other).1 earlier)
  emptied := by
    intro stopped
    rw [ends.stopped] at stopped
    rw [ends.heaps, coherent.emptied stopped]
    rfl
  remembers := ends.remembers coherent.remembers

/-! ## Eviction -/

theorem oldest?_mem {heaps : List PartialHeap} {heap : PartialHeap}
    (found : oldest? heaps = some heap) :
    heap ∈ heaps := by
  induction heaps generalizing heap with
  | nil => cases found
  | cons head tail inductionHypothesis =>
      simp only [oldest?] at found
      split at found
      · cases found
        exact List.mem_cons_self
      · next other rest =>
          split at found
          · cases found
            exact List.mem_cons_self
          · cases found
            exact List.mem_cons_of_mem head (inductionHypothesis rest)

theorem oldest?_eq_none_iff (heaps : List PartialHeap) : oldest? heaps = none ↔ heaps = [] := by
  cases heaps with
  | nil => simp [oldest?]
  | cons head tail =>
      simp only [oldest?, reduceCtorEq, iff_false]
      split
      · simp
      · split <;> simp

theorem nextSequence_evictOldest (keep excess : Nat) (reassembler : Reassembler) :
    (evictOldest keep excess reassembler).1.nextSequence = reassembler.nextSequence := by
  induction excess generalizing reassembler with
  | zero => rfl
  | succ excess inductionHypothesis =>
      simp only [evictOldest]
      split
      · rfl
      · rw [inductionHypothesis]
        exact nextSequence_remember reassembler _ .abandoned

/-- Heaps have been driven out of a table, with what was told of them. -/
structure Evicts
    (before : Reassembler) (keep : Nat)
    (after : Reassembler) (events : List ReassemblyEvent) : Prop where
  coherent : after.Coherent
  kept : after.heaps.get? keep = before.heaps.get? keep
  others : ∀ count, after.heaps.get? count = before.heaps.get? count ∨
    after.heaps.get? count = none
  stopped : after.stopped = before.stopped
  settings : after.settings = before.settings
  events : ∀ event ∈ events, ∃ heap, before.heaps.get? heap.count = some heap ∧
    event = .dropped (.evictedHeap heap.count heap.received.total heap.heapLength
      before.settings.maxHeaps)

theorem evicts_nothing {reassembler : Reassembler} (coherent : reassembler.Coherent) (keep : Nat) :
    reassembler.Evicts keep reassembler [] :=
  ⟨coherent, rfl, fun _ => Or.inl rfl, rfl, rfl, by simp⟩

theorem evicts_evictOldest (keep excess : Nat) :
    ∀ {reassembler : Reassembler}, reassembler.Coherent →
      reassembler.Evicts keep (evictOldest keep excess reassembler).1
        (evictOldest keep excess reassembler).2 := by
  induction excess with
  | zero =>
      intro reassembler coherent
      exact evicts_nothing coherent keep
  | succ excess inductionHypothesis =>
      intro reassembler coherent
      simp only [evictOldest]
      split
      · exact evicts_nothing coherent keep
      · next heap found =>
          have member := oldest?_mem found
          simp only [List.mem_filter, decide_eq_true_eq] at member
          obtain ⟨key, located⟩ :=
            (Table.mem_values_iff coherent.ascending heap).1 member.1
          have same := coherent.keyed key heap located
          subst same
          have ends := ends_evict reassembler heap
          have rest := inductionHypothesis (ends.coherent coherent)
          constructor
          case coherent => exact rest.coherent
          case kept => rw [rest.kept, ends.get?, if_neg (Ne.symm member.2)]
          case others =>
            intro count
            rcases rest.others count with unchanged | gone
            · rw [unchanged, ends.get?]
              split
              · exact Or.inr rfl
              · exact Or.inl rfl
            · exact Or.inr gone
          case stopped => exact rest.stopped.trans ends.stopped
          case settings => exact rest.settings.trans ends.settings
          case events =>
            intro event told
            rcases List.mem_append.1 told with first | later
            · refine ⟨heap, located, ?_⟩
              simpa [evict] using first
            · obtain ⟨evicted, held, description⟩ := rest.events event later
              rw [ends.get?] at held
              rw [ends.settings] at description
              split at held
              · cases held
              · exact ⟨evicted, held, description⟩

/-! ## Accepted packets -/

/-- Two reassemblers that differ in their counters only. -/
structure Recounts (before after : Reassembler) : Prop where
  heaps : after.heaps = before.heaps
  history : after.history = before.history
  finished : after.finished = before.finished
  offsets : after.offsets = before.offsets
  nextSequence : after.nextSequence = before.nextSequence
  stopped : after.stopped = before.stopped
  settings : after.settings = before.settings

theorem Recounts.fate?
    {before after : Reassembler} (recounts : before.Recounts after) (count : Nat) :
    after.fate? count = before.fate? count := by
  rw [Reassembler.fate?, recounts.finished]
  rfl

theorem Recounts.coherent
    {before after : Reassembler} (recounts : before.Recounts after)
    (coherent : before.Coherent) :
    after.Coherent where
  ascending := by
    rw [recounts.heaps]
    exact coherent.ascending
  keyed := by
    rw [recounts.heaps]
    exact coherent.keyed
  unfinished := by
    simp only [recounts.fate?, recounts.heaps]
    exact coherent.unfinished
  emptied := by
    rw [recounts.heaps, recounts.stopped]
    exact coherent.emptied
  remembers := by
    refine ⟨?_, ?_, ?_⟩
    · simp only [recounts.fate?, recounts.history]
      exact coherent.remembers.listed
    · rw [recounts.history]
      exact coherent.remembers.distinct
    · rw [recounts.history, recounts.settings]
      exact coherent.remembers.within

/-- A reassembler that takes a packet, with the packet's offset noted. A packet of a heap that is
not in the table begins one. -/
def taking (reassembler : Reassembler) (packet : Packet) : Reassembler :=
  { reassembler with
    nextSequence :=
      if reassembler.heaps.contains packet.heapCount then
        reassembler.nextSequence
      else
        reassembler.nextSequence + 1
    offsets := reassembler.offsets.note packet.heapCount packet.payloadOffset }

/-- An end starts as well from a reassembler that differs in counters and in what is noted of
offsets. -/
theorem Ends.of_eq
    {start before after : Reassembler} {count : Nat} {fate : Fate}
    (ends : before.Ends count fate after) (heaps : before.heaps = start.heaps)
    (history : before.history = start.history) (finished : before.finished = start.finished)
    (offsets : before.offsets.forget count = start.offsets.forget count)
    (stopped : before.stopped = start.stopped) (settings : before.settings = start.settings) :
    start.Ends count fate after := by
  have remembered := remember_congr history finished settings count fate
  constructor
  case heaps => rw [ends.heaps, heaps]
  case history => exact ends.history.trans remembered.1
  case finished => exact ends.finished.trans remembered.2
  case offsets => exact ends.offsets.trans offsets
  case stopped => exact ends.stopped.trans stopped
  case settings => exact ends.settings.trans settings

theorem forget_note (tracker : OffsetTracker) (count offset : Nat) :
    (tracker.note count offset).forget count = tracker.forget count := by
  simp only [OffsetTracker.forget, OffsetTracker.note, Table.erase_put]

/-- The note of a packet's offset goes with its heap. -/
theorem Recounts.ends
    {before middle after : Reassembler} {packet : Packet} {fate : Fate}
    (recounts : (before.taking packet).Recounts middle)
    (ends : middle.Ends packet.heapCount fate after) :
    before.Ends packet.heapCount fate after := by
  refine ends.of_eq recounts.heaps recounts.history recounts.finished ?_ recounts.stopped
    recounts.settings
  rw [recounts.offsets]
  exact forget_note _ _ _

/-- The heap that a packet is added to: the one in the table, or else one that it begins. -/
def target (reassembler : Reassembler) (packet : Packet) : PartialHeap :=
  (reassembler.heaps.get? packet.heapCount).getD (.begin packet reassembler.nextSequence)

theorem target_of_get?
    {reassembler : Reassembler} {packet : Packet} {heap : PartialHeap}
    (held : reassembler.heaps.get? packet.heapCount = some heap) :
    reassembler.target packet = heap := by
  rw [target, held]
  rfl

theorem target_of_absent
    {reassembler : Reassembler} {packet : Packet}
    (absent : reassembler.heaps.get? packet.heapCount = none) :
    reassembler.target packet = .begin packet reassembler.nextSequence := by
  rw [target, absent]
  rfl

theorem nextSequence_taking_of_get?
    {reassembler : Reassembler} {packet : Packet} {heap : PartialHeap}
    (held : reassembler.heaps.get? packet.heapCount = some heap) :
    (reassembler.taking packet).nextSequence = reassembler.nextSequence := by
  simp [taking, Table.contains_eq_isSome_get?, held]

theorem nextSequence_taking_of_absent
    {reassembler : Reassembler} {packet : Packet}
    (absent : reassembler.heaps.get? packet.heapCount = none) :
    (reassembler.taking packet).nextSequence = reassembler.nextSequence + 1 := by
  simp [taking, Table.contains_eq_isSome_get?, absent]

theorem count_target
    {reassembler : Reassembler} (coherent : reassembler.Coherent) (packet : Packet) :
    (reassembler.target packet).count = packet.heapCount := by
  unfold target
  cases found : reassembler.heaps.get? packet.heapCount with
  | none => rfl
  | some heap => exact coherent.keyed _ heap found

/-- A reassembler that takes a packet and keeps its heap in the table. -/
def hold (reassembler : Reassembler) (packet : Packet) : Reassembler :=
  { reassembler with
    heaps := reassembler.heaps.put packet.heapCount ((reassembler.target packet).add packet)
    nextSequence := (reassembler.taking packet).nextSequence
    offsets := (reassembler.taking packet).offsets }

@[simp] theorem settings_hold (reassembler : Reassembler) (packet : Packet) :
    (reassembler.hold packet).settings = reassembler.settings :=
  rfl

@[simp] theorem stopped_hold (reassembler : Reassembler) (packet : Packet) :
    (reassembler.hold packet).stopped = reassembler.stopped :=
  rfl

@[simp] theorem history_hold (reassembler : Reassembler) (packet : Packet) :
    (reassembler.hold packet).history = reassembler.history :=
  rfl

theorem get?_hold (reassembler : Reassembler) (packet : Packet) (count : Nat) :
    (reassembler.hold packet).heaps.get? count =
      if count = packet.heapCount then
        some ((reassembler.target packet).add packet)
      else
        reassembler.heaps.get? count :=
  Table.get?_put _ _ _ _

/-- A packet is taken for its heap. One that begins a heap does not declare too much. -/
structure Admits (reassembler : Reassembler) (packet : Packet) (after : Reassembler) : Prop where
  fits : reassembler.heaps.get? packet.heapCount = none →
    packet.heapLength ≤ reassembler.settings.maxHeapSize
  nextSequence : after.nextSequence = (reassembler.taking packet).nextSequence

/-- What becomes of a packet that is neither late nor behind the end of the stream, with the
reassembler after it and what is told of it. -/
inductive Accepts (reassembler : Reassembler) (packet : Packet) :
    Reassembler → List ReassemblyEvent → Prop
  /-- The packet would begin a heap that is too long. -/
  | oversized {after : Reassembler} :
      reassembler.heaps.get? packet.heapCount = none →
      reassembler.settings.maxHeapSize < packet.heapLength →
      reassembler.Ends packet.heapCount .abandoned after →
      after.nextSequence = reassembler.nextSequence →
      Accepts reassembler packet after
        [.dropped (.heapTooLarge packet.heapCount packet.heapLength
          reassembler.settings.maxHeapSize)]
  /-- The packet cannot belong to its heap, which is given up. -/
  | refused {after : Reassembler} {cause : ReassemblyError} :
      (reassembler.target packet).objection? packet = some cause →
      reassembler.Ends packet.heapCount .abandoned after →
      reassembler.Admits packet after →
      Accepts reassembler packet after [.dropped cause]
  /-- The heap is complete, but its items cannot be found. -/
  | unresolved {after : Reassembler} {cause : ReassemblyError} :
      (reassembler.target packet).objection? packet = none →
      ((reassembler.target packet).add packet).isComplete = true →
      ((reassembler.target packet).add packet).resolve reassembler.settings.compat =
        .error cause →
      reassembler.Ends packet.heapCount .abandoned after →
      reassembler.Admits packet after →
      Accepts reassembler packet after [.dropped cause]
  /-- The heap is complete. -/
  | completed {after : Reassembler} {received : ReceivedHeap} :
      (reassembler.target packet).objection? packet = none →
      ((reassembler.target packet).add packet).isComplete = true →
      ((reassembler.target packet).add packet).resolve reassembler.settings.compat =
        .ok received →
      reassembler.Ends packet.heapCount .complete after →
      reassembler.Admits packet after →
      Accepts reassembler packet after
        (if ((reassembler.target packet).add packet).endOfStream && received.isControlOnly then
          []
        else
          [.heap received])
  /-- The heap stays in the table, from which others may be driven out. -/
  | kept {grown after : Reassembler} {events : List ReassemblyEvent} :
      (reassembler.target packet).objection? packet = none →
      ((reassembler.target packet).add packet).isComplete = false →
      (reassembler.hold packet).Recounts grown →
      evictOldest packet.heapCount
        (grown.heaps.entries.length - grown.settings.maxHeaps) grown = (after, events) →
      reassembler.Admits packet after →
      Accepts reassembler packet after events

/-- Counting alone does not change what becomes of a packet. -/
theorem Accepts.of_recounts
    {reassembler counted after : Reassembler} {packet : Packet}
    {events : List ReassemblyEvent} (recounts : reassembler.Recounts counted)
    (accepts : counted.Accepts packet after events) :
    reassembler.Accepts packet after events := by
  have sameTarget : counted.target packet = reassembler.target packet := by
    rw [target, target, recounts.heaps, recounts.nextSequence]
  have admitted : (reassembler.taking packet).Recounts (counted.taking packet) := by
    constructor <;> simp only [taking, recounts.heaps, recounts.history, recounts.finished,
      recounts.offsets, recounts.nextSequence, recounts.stopped, recounts.settings]
  have ended {fate : Fate} (ends : counted.Ends packet.heapCount fate after) :
      reassembler.Ends packet.heapCount fate after := by
    refine ends.of_eq recounts.heaps recounts.history recounts.finished ?_ recounts.stopped
      recounts.settings
    rw [recounts.offsets]
  have admits (taken : counted.Admits packet after) : reassembler.Admits packet after := by
    constructor
    · rw [← recounts.heaps, ← recounts.settings]
      exact taken.fits
    · rw [taken.nextSequence, admitted.nextSequence]
  cases accepts with
  | oversized absent long ends sequence =>
      rw [recounts.heaps] at absent
      rw [recounts.settings] at long ⊢
      rw [recounts.nextSequence] at sequence
      exact .oversized absent long (ended ends) sequence
  | refused objection ends taken =>
      rw [sameTarget] at objection
      exact .refused objection (ended ends) (admits taken)
  | unresolved accepted complete unresolved ends taken =>
      rw [sameTarget] at accepted complete unresolved
      rw [recounts.settings] at unresolved
      exact .unresolved accepted complete unresolved (ended ends) (admits taken)
  | completed accepted complete resolved ends taken =>
      rw [sameTarget] at accepted complete resolved ⊢
      rw [recounts.settings] at resolved
      exact .completed accepted complete resolved (ended ends) (admits taken)
  | kept accepted incomplete grown evicted taken =>
      rw [sameTarget] at accepted incomplete
      refine .kept accepted incomplete ?_ evicted (admits taken)
      constructor
      case heaps => rw [grown.heaps, hold, hold, sameTarget, recounts.heaps]
      case history => exact grown.history.trans admitted.history
      case finished => exact grown.finished.trans admitted.finished
      case offsets => exact grown.offsets.trans admitted.offsets
      case nextSequence => exact grown.nextSequence.trans admitted.nextSequence
      case stopped => exact grown.stopped.trans admitted.stopped
      case settings => exact grown.settings.trans admitted.settings

/-! ## The inversion of `accept` -/

theorem nextSequence_abandon (reassembler : Reassembler) (count : Nat) (cause : ReassemblyError) :
    (reassembler.abandon count cause).1.nextSequence = reassembler.nextSequence :=
  nextSequence_remember reassembler count .abandoned

theorem complete_of_error
    {reassembler : Reassembler} {heap : PartialHeap} {cause : ReassemblyError}
    (unresolved : heap.resolve reassembler.settings.compat = .error cause) :
    reassembler.complete heap = reassembler.abandon heap.count cause := by
  simp only [complete, unresolved]

theorem complete_of_ok
    {reassembler : Reassembler} {heap : PartialHeap} {received : ReceivedHeap}
    (resolved : heap.resolve reassembler.settings.compat = .ok received) :
    reassembler.Ends heap.count .complete (reassembler.complete heap).1 ∧
      (reassembler.complete heap).1.nextSequence = reassembler.nextSequence ∧
      (reassembler.complete heap).2 =
        if heap.endOfStream && received.isControlOnly then [] else [.heap received] := by
  have ends := ends_finish reassembler heap.count .complete
  have sequence := nextSequence_remember reassembler heap.count .complete
  simp only [complete, resolved]
  split
  · exact ⟨ends, sequence, rfl⟩
  · exact ⟨⟨rfl, rfl, rfl, rfl, ends.stopped, ends.settings⟩, sequence, rfl⟩

/-- Adding a packet to its heap, in a reassembler that has taken and counted it. -/
theorem accepts_addTo
    {reassembler noted : Reassembler} {packet : Packet} (coherent : reassembler.Coherent)
    (recounts : (reassembler.taking packet).Recounts noted)
    (fits : reassembler.heaps.get? packet.heapCount = none →
      packet.heapLength ≤ reassembler.settings.maxHeapSize) :
    reassembler.Accepts packet
      (noted.addTo (reassembler.target packet) packet).1
      (noted.addTo (reassembler.target packet) packet).2 := by
  have sameCount := count_target coherent packet
  have grownCount : ((reassembler.target packet).add packet).count = packet.heapCount := sameCount
  unfold addTo
  split
  · next cause objection =>
      rw [sameCount]
      refine .refused objection (recounts.ends (ends_abandon noted _ cause)) ⟨fits, ?_⟩
      rw [nextSequence_abandon, recounts.nextSequence]
  · next accepted =>
      let counted : Reassembler :=
        { noted with
          stats := countSlice noted.stats packet
            ((reassembler.target packet).received.missing packet.span) }
      have recounted : (reassembler.taking packet).Recounts counted :=
        ⟨recounts.heaps, recounts.history, recounts.finished, recounts.offsets,
          recounts.nextSequence, recounts.stopped, recounts.settings⟩
      have sameCompat : counted.settings.compat = reassembler.settings.compat := by
        rw [recounted.settings]
        rfl
      change reassembler.Accepts packet
        (if ((reassembler.target packet).add packet).isComplete then
          counted.complete ((reassembler.target packet).add packet) else _).1
        (if ((reassembler.target packet).add packet).isComplete then
          counted.complete ((reassembler.target packet).add packet) else _).2
      split
      · next complete =>
          cases resolution :
              ((reassembler.target packet).add packet).resolve counted.settings.compat with
          | error cause =>
              rw [complete_of_error resolution, grownCount]
              rw [sameCompat] at resolution
              refine .unresolved accepted complete resolution
                (recounted.ends (ends_abandon counted _ cause)) ⟨fits, ?_⟩
              rw [nextSequence_abandon, recounted.nextSequence]
          | ok received =>
              obtain ⟨ends, sequence, told⟩ := complete_of_ok resolution
              rw [grownCount] at ends
              rw [told]
              rw [sameCompat] at resolution
              refine .completed accepted complete resolution (recounted.ends ends) ⟨fits, ?_⟩
              rw [sequence, recounted.nextSequence]
      · next incomplete =>
          have grown :
              (reassembler.hold packet).Recounts
                { counted with
                  heaps := counted.heaps.put packet.heapCount
                    ((reassembler.target packet).add packet) } :=
            ⟨by rw [recounted.heaps]; rfl, recounted.history, recounted.finished,
              recounted.offsets, recounted.nextSequence, recounted.stopped, recounted.settings⟩
          rw [grownCount]
          refine .kept accepted (by simpa using incomplete) grown rfl ⟨fits, ?_⟩
          rw [nextSequence_evictOldest, grown.nextSequence]
          rfl

/-- The inversion of `accept`: it says all that a packet can do. -/
theorem accepts_accept
    {reassembler : Reassembler} (coherent : reassembler.Coherent) (packet : Packet) :
    reassembler.Accepts packet (reassembler.accept packet).1 (reassembler.accept packet).2 := by
  unfold accept
  split
  · next heap found =>
      have noted : (reassembler.taking packet).Recounts (reassembler.noteOffset packet) :=
        ⟨rfl, rfl, rfl, rfl, (nextSequence_taking_of_get? found).symm, rfl, rfl⟩
      rw [← target_of_get? found]
      refine accepts_addTo coherent noted ?_
      rw [found]
      rintro ⟨⟩
  · next absent =>
      split
      · next long =>
          exact .oversized absent long (ends_abandon reassembler _ _)
            (nextSequence_abandon reassembler _ _)
      · next short =>
          let begun : Reassembler :=
            { reassembler with nextSequence := reassembler.nextSequence + 1 }
          have noted : (reassembler.taking packet).Recounts (begun.noteOffset packet) :=
            ⟨rfl, rfl, rfl, rfl, (nextSequence_taking_of_absent absent).symm, rfl, rfl⟩
          dsimp only
          rw [← target_of_absent absent]
          exact accepts_addTo coherent noted fun _ => Nat.not_lt.1 short

/-! ## What an accepted packet leaves behind -/

section Accepted

variable {reassembler after : Reassembler} {packet : Packet} {events : List ReassemblyEvent}

theorem coherent_hold
    (coherent : reassembler.Coherent) (running : reassembler.stopped = false)
    (fresh : reassembler.fate? packet.heapCount = none) :
    (reassembler.hold packet).Coherent where
  ascending := Table.ascending_put coherent.ascending _ _
  keyed := by
    intro count heap found
    rw [get?_hold] at found
    split at found
    · next same =>
        cases found
        rw [same]
        exact count_target coherent packet
    · exact coherent.keyed count heap found
  unfinished := by
    intro count finished
    have different : count ≠ packet.heapCount := by
      rintro rfl
      have remembered : (reassembler.fate? packet.heapCount).isSome := finished
      rw [fresh] at remembered
      cases remembered
    rw [get?_hold, if_neg different]
    exact coherent.unfinished count finished
  emptied := by
    intro stopped
    rw [stopped_hold, running] at stopped
    cases stopped
  remembers := ⟨coherent.remembers.listed, coherent.remembers.distinct, coherent.remembers.within⟩

theorem coherent_kept
    {grown : Reassembler} (coherent : reassembler.Coherent)
    (running : reassembler.stopped = false)
    (fresh : reassembler.fate? packet.heapCount = none)
    (recounts : (reassembler.hold packet).Recounts grown) :
    grown.Coherent :=
  recounts.coherent (coherent_hold coherent running fresh)

theorem evicts_kept
    {grown : Reassembler} {excess : Nat} (coherent : reassembler.Coherent)
    (running : reassembler.stopped = false)
    (fresh : reassembler.fate? packet.heapCount = none)
    (recounts : (reassembler.hold packet).Recounts grown)
    (evicted : evictOldest packet.heapCount excess grown = (after, events)) :
    grown.Evicts packet.heapCount after events := by
  have evicts := evicts_evictOldest packet.heapCount excess
    (coherent_kept coherent running fresh recounts)
  rwa [evicted] at evicts

theorem Accepts.coherent
    (accepts : reassembler.Accepts packet after events) (coherent : reassembler.Coherent)
    (running : reassembler.stopped = false)
    (fresh : reassembler.fate? packet.heapCount = none) :
    after.Coherent := by
  cases accepts with
  | oversized _ _ ends => exact ends.coherent coherent
  | refused _ ends => exact ends.coherent coherent
  | unresolved _ _ _ ends => exact ends.coherent coherent
  | completed _ _ _ ends => exact ends.coherent coherent
  | kept _ _ recounts evicted =>
      have evicts := evicts_kept coherent running fresh recounts evicted
      exact evicts.coherent

theorem Accepts.settings
    (accepts : reassembler.Accepts packet after events) (coherent : reassembler.Coherent)
    (running : reassembler.stopped = false)
    (fresh : reassembler.fate? packet.heapCount = none) :
    after.settings = reassembler.settings := by
  cases accepts with
  | oversized _ _ ends => exact ends.settings
  | refused _ ends => exact ends.settings
  | unresolved _ _ _ ends => exact ends.settings
  | completed _ _ _ ends => exact ends.settings
  | kept _ _ recounts evicted =>
      have evicts := evicts_kept coherent running fresh recounts evicted
      rw [evicts.settings, recounts.settings, settings_hold]

theorem Accepts.stopped
    (accepts : reassembler.Accepts packet after events) (coherent : reassembler.Coherent)
    (running : reassembler.stopped = false)
    (fresh : reassembler.fate? packet.heapCount = none) :
    after.stopped = false := by
  rw [← running]
  cases accepts with
  | oversized _ _ ends => exact ends.stopped
  | refused _ ends => exact ends.stopped
  | unresolved _ _ _ ends => exact ends.stopped
  | completed _ _ _ ends => exact ends.stopped
  | kept _ _ recounts evicted =>
      have evicts := evicts_kept coherent running fresh recounts evicted
      rw [evicts.stopped, recounts.stopped, stopped_hold]

/-- After a packet a heap is in the table as it was, or as the packet leaves it, or not at all. -/
theorem Accepts.get?
    (accepts : reassembler.Accepts packet after events) (coherent : reassembler.Coherent)
    (running : reassembler.stopped = false)
    (fresh : reassembler.fate? packet.heapCount = none) (count : Nat) :
    after.heaps.get? count = none ∨
      (count ≠ packet.heapCount ∧
        after.heaps.get? count = reassembler.heaps.get? count) ∨
      (count = packet.heapCount ∧
        (reassembler.target packet).objection? packet = none ∧
        ((reassembler.target packet).add packet).isComplete = false ∧
        after.heaps.get? count = some ((reassembler.target packet).add packet)) := by
  have ended {fate : Fate} (ends : reassembler.Ends packet.heapCount fate after) :
      after.heaps.get? count = none ∨
        (count ≠ packet.heapCount ∧
          after.heaps.get? count = reassembler.heaps.get? count) := by
    rw [ends.get?]
    split
    · exact Or.inl rfl
    · next different => exact Or.inr ⟨different, rfl⟩
  cases accepts with
  | oversized _ _ ends => exact (ended ends).imp_right Or.inl
  | refused _ ends => exact (ended ends).imp_right Or.inl
  | unresolved _ _ _ ends => exact (ended ends).imp_right Or.inl
  | completed _ _ _ ends => exact (ended ends).imp_right Or.inl
  | kept accepted incomplete recounts evicted =>
      have evicts := evicts_kept coherent running fresh recounts evicted
      rcases evicts.others count with unchanged | gone
      · rw [unchanged, recounts.heaps, get?_hold]
        split
        · next same => exact Or.inr (Or.inr ⟨same, accepted, incomplete, rfl⟩)
        · next different => exact Or.inr (Or.inl ⟨different, rfl⟩)
      · exact Or.inl gone

end Accepted

end Reassembler
end Spead
