import Spead.Proofs.Reassembler.Step

/-!
Runs of a reassembler.

A run is a list of calls: packets, packets as they came, and requests to stop. Beside the
reassembler a `Recording` keeps, for every heap in the table, the packets accepted since that heap
was begun; `Recording.Faithful` says that each heap is made of them.
-/

namespace Spead
namespace Reassembler

/-! ## The end of the stream -/

theorem heaps_stop {reassembler : Reassembler} (coherent : reassembler.Coherent) :
    reassembler.stop.1.heaps = {} := by
  unfold stop
  split
  · next stopped => exact coherent.emptied stopped
  · rfl

theorem stopped_stop (reassembler : Reassembler) : reassembler.stop.1.stopped = true := by
  unfold stop
  split
  · next stopped => exact stopped
  · rfl

theorem settings_stop (reassembler : Reassembler) :
    reassembler.stop.1.settings = reassembler.settings := by
  unfold stop
  split <;> rfl

theorem remembers_stop {reassembler : Reassembler} (remembers : reassembler.Remembers) :
    reassembler.stop.1.Remembers := by
  unfold stop
  split
  · exact remembers
  · exact ⟨remembers.listed, remembers.distinct, remembers.within⟩

theorem coherent_stop {reassembler : Reassembler} (coherent : reassembler.Coherent) :
    reassembler.stop.1.Coherent where
  ascending := by
    rw [heaps_stop coherent]
    exact Table.ascending_empty
  keyed := by
    rw [heaps_stop coherent]
    simp
  unfinished := by
    rw [heaps_stop coherent]
    simp
  emptied := fun _ => heaps_stop coherent
  remembers := remembers_stop coherent.remembers

/-- Stopping tells of heaps of the table that they are truncated, and of the end. -/
theorem mem_stop
    {reassembler : Reassembler} (coherent : reassembler.Coherent) {event : ReassemblyEvent}
    (told : event ∈ reassembler.stop.2) :
    event = .endOfStream ∨
      ∃ heap, reassembler.heaps.get? heap.count = some heap ∧
        event = .dropped (.truncatedHeap heap.count heap.received.total heap.heapLength) := by
  unfold stop at told
  split at told
  · cases told
  · simp only [List.mem_append, List.mem_map, List.mem_mergeSort, List.mem_singleton] at told
    rcases told with ⟨heap, member, rfl⟩ | rfl
    · obtain ⟨key, located⟩ := (Table.mem_values_iff coherent.ascending heap).1 member
      have same := coherent.keyed key heap located
      exact Or.inr ⟨heap, same ▸ located, rfl⟩
    · exact Or.inl rfl

/-! ## Packets -/

/-- The inversion of `insertPacket`. -/
inductive Inserts (reassembler : Reassembler) (packet : Packet) :
    Reassembler → List ReassemblyEvent → Prop
  | ignored {after : Reassembler} :
      reassembler.stopped = true ∨ (reassembler.fate? packet.heapCount).isSome →
      reassembler.Recounts after →
      Inserts reassembler packet after []
  | accepted {after : Reassembler} {events : List ReassemblyEvent} :
      reassembler.stopped = false →
      reassembler.fate? packet.heapCount = none →
      packet.carriesStop = false →
      reassembler.Accepts packet after events →
      Inserts reassembler packet after events
  | ending {after : Reassembler} {events : List ReassemblyEvent} :
      reassembler.stopped = false →
      reassembler.fate? packet.heapCount = none →
      packet.carriesStop = true →
      reassembler.Accepts packet after events →
      Inserts reassembler packet after.stop.1 (events ++ after.stop.2)

theorem inserts_insertPacket
    {reassembler : Reassembler} (coherent : reassembler.Coherent) (packet : Packet) :
    reassembler.Inserts packet (reassembler.insertPacket packet).1
      (reassembler.insertPacket packet).2 := by
  unfold insertPacket
  split
  · next passed =>
      rw [Bool.or_eq_true] at passed
      exact .ignored passed ⟨rfl, rfl, rfl, rfl, rfl, rfl, rfl⟩
  · next taken =>
      rw [Bool.or_eq_true, not_or, Bool.not_eq_true, Bool.not_eq_true,
        Option.isSome_eq_false_iff, Option.isNone_iff_eq_none] at taken
      let counted : Reassembler :=
        { reassembler with
          stats.packetsReceived := reassembler.stats.packetsReceived + 1 }
      have recounts : reassembler.Recounts counted :=
        ⟨rfl, rfl, rfl, rfl, rfl, rfl, rfl⟩
      have accepts :
          reassembler.Accepts packet (counted.accept packet).1 (counted.accept packet).2 :=
        .of_recounts recounts (accepts_accept (recounts.coherent coherent) packet)
      dsimp only
      split
      · next carries => exact .ending taken.1 taken.2 carries accepts
      · next carries => exact .accepted taken.1 taken.2 (by simpa using carries) accepts

theorem Inserts.settings
    {reassembler after : Reassembler} {packet : Packet} {events : List ReassemblyEvent}
    (coherent : reassembler.Coherent) (inserts : reassembler.Inserts packet after events) :
    after.settings = reassembler.settings := by
  cases inserts with
  | ignored _ recounts => exact recounts.settings
  | accepted running fresh _ accepts => exact accepts.settings coherent running fresh
  | ending running fresh _ accepts =>
      rw [settings_stop, accepts.settings coherent running fresh]

/-! ## Calls -/

/-- What is asked of a reassembler. -/
inductive Call where
  | insert (packet : Packet)
  /-- Insert a packet as it came, or bytes that are no packet. -/
  | receive (bytes : Bytes)
  | stop

def Call.packet? : Call → Option Packet
  | .insert packet => some packet
  | .receive bytes => (Packet.parse bytes).toOption.map Prod.fst
  | .stop => none

/-- Answer a call. Nothing is told of bytes that are no packet. -/
def call (reassembler : Reassembler) : Call → Step
  | .insert packet => reassembler.insertPacket packet
  | .receive bytes =>
      match reassembler.insertBytes bytes with
      | (next, .ok events) => (next, events)
      | (next, .error _) => (next, [])
  | .stop => reassembler.stop

/-- The inversion of `call`. -/
inductive Answers (reassembler : Reassembler) (call : Call) :
    Reassembler → List ReassemblyEvent → Prop
  | packet {packet : Packet} {after : Reassembler} {events : List ReassemblyEvent} :
      call.packet? = some packet →
      reassembler.Inserts packet after events →
      Answers reassembler call after events
  | malformed {after : Reassembler} :
      call.packet? = none →
      reassembler.Recounts after →
      Answers reassembler call after []
  | stop :
      call.packet? = none →
      Answers reassembler call reassembler.stop.1 reassembler.stop.2

theorem answers_call
    {reassembler : Reassembler} (coherent : reassembler.Coherent) (call : Call) :
    reassembler.Answers call (reassembler.call call).1 (reassembler.call call).2 := by
  cases call with
  | insert packet => exact .packet rfl (inserts_insertPacket coherent packet)
  | stop => exact .stop rfl
  | receive bytes =>
      simp only [Reassembler.call, insertBytes]
      cases parsing : Packet.parse bytes with
      | error cause =>
          refine .malformed ?_ ⟨rfl, rfl, rfl, rfl, rfl, rfl, rfl⟩
          simp [Call.packet?, parsing, Except.toOption]
      | ok result =>
          refine .packet ?_ (inserts_insertPacket coherent result.1)
          simp [Call.packet?, parsing, Except.toOption]

theorem Answers.inserts
    {reassembler after : Reassembler} {call : Call} {packet : Packet}
    {events : List ReassemblyEvent} (answers : reassembler.Answers call after events)
    (brought : call.packet? = some packet) :
    reassembler.Inserts packet after events := by
  cases answers with
  | packet same inserts =>
      rw [brought] at same
      cases same
      exact inserts
  | malformed nothing _ =>
      rw [brought] at nothing
      cases nothing
  | stop nothing =>
      rw [brought] at nothing
      cases nothing

theorem Answers.settings
    {reassembler after : Reassembler} {call : Call} {events : List ReassemblyEvent}
    (coherent : reassembler.Coherent) (answers : reassembler.Answers call after events) :
    after.settings = reassembler.settings := by
  cases answers with
  | packet _ inserts => exact inserts.settings coherent
  | malformed _ recounts => exact recounts.settings
  | stop _ => exact settings_stop reassembler

/-! ## Recordings -/

/-- The packets accepted for a heap since it was begun, after a call that may bring one more. Only
heaps of the table have any. -/
def extend
    (block : Nat → List Packet) (packet? : Option Packet) (next : Reassembler) (count : Nat) :
    List Packet :=
  if next.heaps.contains count then
    block count ++ packet?.toList.filter fun packet => packet.heapCount = count
  else
    []

/-- Every heap of the table is made of its block and still incomplete. -/
structure Faithful (reassembler : Reassembler) (block : Nat → List Packet) : Prop where
  coherent : reassembler.Coherent
  made : ∀ count heap, reassembler.heaps.get? count = some heap → heap.MadeOf (block count)
  begun : ∀ count heap, reassembler.heaps.get? count = some heap → block count ≠ []
  incomplete : ∀ count heap, reassembler.heaps.get? count = some heap → heap.isComplete = false
  absent : ∀ count, reassembler.heaps.get? count = none → block count = []

theorem faithful_new (settings : ReassemblerSettings) :
    (new settings).Faithful fun _ => [] where
  coherent := coherent_new settings
  made := by simp [new]
  begun := by simp [new]
  incomplete := by simp [new]
  absent := fun _ _ => rfl

theorem extend_of_get?_eq_none
    (block : Nat → List Packet) (packet? : Option Packet) {next : Reassembler} {count : Nat}
    (absent : next.heaps.get? count = none) :
    extend block packet? next count = [] := by
  simp [extend, Table.contains_eq_isSome_get?, absent]

theorem extend_of_get?_eq_some
    (block : Nat → List Packet) (packet? : Option Packet) {next : Reassembler} {count : Nat}
    {heap : PartialHeap} (found : next.heaps.get? count = some heap) :
    extend block packet? next count =
      block count ++ packet?.toList.filter fun packet => packet.heapCount = count := by
  simp [extend, Table.contains_eq_isSome_get?, found]

section Faithful

variable {reassembler after : Reassembler} {block : Nat → List Packet}

theorem faithful_of_heaps_eq_empty
    (packet? : Option Packet) (coherent : after.Coherent) (empty : after.heaps = {}) :
    after.Faithful (extend block packet? after) where
  coherent := coherent
  made := by simp [empty]
  begun := by simp [empty]
  incomplete := by simp [empty]
  absent := fun _ absent => extend_of_get?_eq_none block packet? absent

/-- A call that leaves the table as it is and brings no packet for a heap in it. -/
theorem Faithful.of_recounts
    {packet? : Option Packet} (faithful : reassembler.Faithful block)
    (recounts : reassembler.Recounts after)
    (passed : ∀ packet ∈ packet?, reassembler.heaps.get? packet.heapCount = none) :
    after.Faithful (extend block packet? after) := by
  have same {count : Nat} {heap : PartialHeap} (found : after.heaps.get? count = some heap) :
      extend block packet? after count = block count := by
    rw [extend_of_get?_eq_some block packet? found, List.append_right_eq_self, List.filter_eq_nil_iff]
    intro packet brought ofHeap
    have absent := passed packet (by simpa using brought)
    rw [← recounts.heaps, of_decide_eq_true ofHeap, found] at absent
    cases absent
  constructor
  case coherent => exact recounts.coherent faithful.coherent
  case made =>
    intro count heap found
    rw [same found]
    rw [recounts.heaps] at found
    exact faithful.made count heap found
  case begun =>
    intro count heap found
    rw [same found]
    rw [recounts.heaps] at found
    exact faithful.begun count heap found
  case incomplete =>
    rw [recounts.heaps]
    exact faithful.incomplete
  case absent =>
    intro count absent
    exact extend_of_get?_eq_none block packet? absent

/-- The heap that a packet is added to is made of the packets before. -/
theorem Faithful.madeOf_target
    (faithful : reassembler.Faithful block) (packet : Packet) :
    (reassembler.target packet).MadeOf (block packet.heapCount) := by
  cases found : reassembler.heaps.get? packet.heapCount with
  | none =>
      rw [target_of_absent found, faithful.absent packet.heapCount found]
      exact PartialHeap.madeOf_begin packet reassembler.nextSequence
  | some heap =>
      rw [target_of_get? found]
      exact faithful.made packet.heapCount heap found

/-- A packet that raises no objection extends the block of its heap. -/
theorem Faithful.madeOf_add
    (faithful : reassembler.Faithful block) {packet : Packet}
    (accepted : (reassembler.target packet).objection? packet = none) :
    ((reassembler.target packet).add packet).MadeOf (block packet.heapCount ++ [packet]) :=
  PartialHeap.madeOf_add (faithful.madeOf_target packet)
    (count_target faithful.coherent packet).symm accepted

theorem Faithful.of_accepts
    {packet : Packet} {events : List ReassemblyEvent} (faithful : reassembler.Faithful block)
    (running : reassembler.stopped = false)
    (fresh : reassembler.fate? packet.heapCount = none)
    (accepts : reassembler.Accepts packet after events) :
    after.Faithful (extend block (some packet) after) := by
  have present {count : Nat} {heap : PartialHeap} (found : after.heaps.get? count = some heap) :
      (extend block (some packet) after count = block count ∧
          reassembler.heaps.get? count = some heap) ∨
        (extend block (some packet) after count = block packet.heapCount ++ [packet] ∧
          (reassembler.target packet).objection? packet = none ∧
          heap.isComplete = false ∧ heap = (reassembler.target packet).add packet) := by
    rw [extend_of_get?_eq_some block (some packet) found]
    rcases accepts.get? faithful.coherent running fresh count with
      gone | ⟨different, unchanged⟩ | ⟨rfl, accepted, incomplete, grown⟩
    · rw [found] at gone
      cases gone
    · rw [found] at unchanged
      exact Or.inl ⟨by simp [Ne.symm different], unchanged.symm⟩
    · rw [found] at grown
      cases grown
      exact Or.inr ⟨by simp, accepted, incomplete, rfl⟩
  constructor
  case coherent => exact accepts.coherent faithful.coherent running fresh
  case made =>
    intro count heap found
    rcases present found with ⟨same, before⟩ | ⟨longer, accepted, _, rfl⟩
    · rw [same]
      exact faithful.made count heap before
    · rw [longer]
      exact faithful.madeOf_add accepted
  case begun =>
    intro count heap found
    rcases present found with ⟨same, before⟩ | ⟨longer, _⟩
    · rw [same]
      exact faithful.begun count heap before
    · rw [longer]
      simp
  case incomplete =>
    intro count heap found
    rcases present found with ⟨_, before⟩ | ⟨_, _, incomplete, _⟩
    · exact faithful.incomplete count heap before
    · exact incomplete
  case absent =>
    intro count absent
    exact extend_of_get?_eq_none block (some packet) absent

theorem Faithful.of_inserts
    {packet : Packet} {events : List ReassemblyEvent} (faithful : reassembler.Faithful block)
    (inserts : reassembler.Inserts packet after events) :
    after.Faithful (extend block (some packet) after) := by
  cases inserts with
  | ignored passed recounts =>
      refine faithful.of_recounts recounts ?_
      intro brought same
      cases same
      rcases passed with stopped | finished
      · simp [faithful.coherent.emptied stopped]
      · exact faithful.coherent.unfinished packet.heapCount finished
  | accepted running fresh _ accepts => exact faithful.of_accepts running fresh accepts
  | ending running fresh _ accepts =>
      have coherent := accepts.coherent faithful.coherent running fresh
      exact faithful_of_heaps_eq_empty (some packet) (coherent_stop coherent)
        (heaps_stop coherent)

theorem Faithful.of_answers
    {call : Call} {events : List ReassemblyEvent} (faithful : reassembler.Faithful block)
    (answers : reassembler.Answers call after events) :
    after.Faithful (extend block call.packet? after) := by
  cases answers with
  | packet brought inserts =>
      rw [brought]
      exact faithful.of_inserts inserts
  | malformed nothing recounts =>
      refine faithful.of_recounts recounts ?_
      simp [nothing]
  | stop _ =>
      exact faithful_of_heaps_eq_empty call.packet? (coherent_stop faithful.coherent)
        (heaps_stop faithful.coherent)

end Faithful

/-- A reassembler with, for every heap, the packets accepted since the heap was begun. -/
structure Recording where
  reassembler : Reassembler
  block : Nat → List Packet

namespace Recording

def start (settings : ReassemblerSettings) : Recording where
  reassembler := .new settings
  block := fun _ => []

def next (recording : Recording) (call : Call) : Recording where
  reassembler := (recording.reassembler.call call).1
  block := extend recording.block call.packet? (recording.reassembler.call call).1

def run (settings : ReassemblerSettings) (calls : List Call) : Recording :=
  calls.foldl next (start settings)

theorem run_append_singleton (settings : ReassemblerSettings) (calls : List Call) (call : Call) :
    run settings (calls ++ [call]) = (run settings calls).next call := by
  simp [run]

theorem faithful_run (settings : ReassemblerSettings) (calls : List Call) :
    (run settings calls).reassembler.Faithful (run settings calls).block := by
  induction calls using List.reverseRecOn with
  | nil => exact faithful_new settings
  | append_singleton calls call inductionHypothesis =>
      rw [run_append_singleton]
      exact inductionHypothesis.of_answers
        (answers_call inductionHypothesis.coherent call)

theorem settings_run (settings : ReassemblerSettings) (calls : List Call) :
    (run settings calls).reassembler.settings = (new settings).settings := by
  induction calls using List.reverseRecOn with
  | nil => rfl
  | append_singleton calls call inductionHypothesis =>
      rw [run_append_singleton, ← inductionHypothesis]
      have coherent := (faithful_run settings calls).coherent
      exact (answers_call coherent call).settings coherent

end Recording
end Reassembler
end Spead
