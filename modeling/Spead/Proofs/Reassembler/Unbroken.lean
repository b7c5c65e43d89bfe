import Spead.Proofs.MachineWords
import Spead.Proofs.Reassembler.Assembly

/-!
No bytes break the receive path.

Whatever strings of bytes have been received before, the next one is read, added to its heap and, if
the heap is complete, resolved without a step that breaks.
-/

namespace Spead
namespace Reassembler

/-- A packet is added to its heap, and the heap resolved, without a step that breaks. -/
structure Bears (before : Reassembler) (packet : Packet) : Prop where
  span : packet.span? = some packet.span
  stop : packet.carriesStop? = some packet.carriesStop
  added : Yields ((before.target packet).add? packet)
    (match (before.target packet).objection? packet with
      | some cause => .error cause
      | none => .ok ((before.target packet).add packet,
          (before.target packet).received.missing packet.span))
  within : ∀ count start stop,
    (before.target packet).objection? packet ≠ some (.invalidHeap count (.slice start stop))
  bounded : (before.target packet).objection? packet = none →
    ((before.target packet).add packet).Bounded
  resolved : Yields (((before.target packet).add packet).resolve? before.settings.compat)
    (((before.target packet).add packet).resolve before.settings.compat)
  unresolvable : (before.target packet).objection? packet = none →
    ∀ cause, ((before.target packet).add packet).resolve before.settings.compat = .error cause →
      ((before.target packet).add packet).Unresolvable before.settings.compat cause

section Faithful

variable {before after : Reassembler} {block : Nat → List Packet} {packet : Packet}
  {events : List ReassemblyEvent}

theorem Faithful.bears
    (faithful : before.Faithful block) (wellFormed : packet.WellFormed) : before.Bears packet where
  span := wellFormed.span?_eq
  stop := wellFormed.carriesStop?_eq
  added := PartialHeap.yields_add? (faithful.madeOf_target packet) wellFormed
  within := PartialHeap.not_slice_of_objection? wellFormed
  bounded := fun accepted => (faithful.madeOf_add accepted).bounded (by simp) wellFormed
  resolved := PartialHeap.yields_resolve? _ _
  unresolvable := by
    intro accepted cause unresolved
    exact (faithful.madeOf_add accepted).unresolvable (by simp) wellFormed unresolved

theorem not_slice_mem_stop (coherent : before.Coherent) (count start stop : Nat) :
    .dropped (.invalidHeap count (.slice start stop)) ∉ before.stop.2 := by
  intro told
  rcases mem_stop coherent told with same | ⟨heap, _, same⟩
  · cases same
  · cases same

theorem Accepts.not_slice
    (accepts : before.Accepts packet after events) (coherent : before.Coherent)
    (running : before.stopped = false) (fresh : before.fate? packet.heapCount = none)
    (bears : before.Bears packet) (count start stop : Nat) :
    .dropped (.invalidHeap count (.slice start stop)) ∉ events := by
  intro told
  cases accepts with
  | oversized _ _ _ _ => simp at told
  | refused objection _ _ =>
      rw [List.mem_singleton] at told
      cases told
      exact bears.within _ _ _ objection
  | unresolved accepted _ unresolved _ _ =>
      rw [List.mem_singleton] at told
      cases told
      cases bears.unresolvable accepted _ unresolved
  | completed _ _ _ _ _ =>
      split at told
      · cases told
      · simp at told
  | kept _ _ recounts evicted _ =>
      have evicts := evicts_kept coherent running fresh recounts evicted
      obtain ⟨heap, _, description⟩ := evicts.events _ told
      cases description

theorem Inserts.not_slice
    (inserts : before.Inserts packet after events) (coherent : before.Coherent)
    (bears : before.Bears packet) (count start stop : Nat) :
    .dropped (.invalidHeap count (.slice start stop)) ∉ events := by
  cases inserts with
  | ignored _ _ => simp
  | accepted running fresh _ accepts =>
      exact accepts.not_slice coherent running fresh bears count start stop
  | ending running fresh _ accepts =>
      rw [List.mem_append, not_or]
      exact ⟨accepts.not_slice coherent running fresh bears count start stop,
        not_slice_mem_stop (accepts.coherent coherent running fresh) count start stop⟩

end Faithful

/-! ## Whole runs -/

/-- Blocks of runs of bytes are made of packets as they come out of bytes. -/
theorem Recording.wellFormed_of_mem_block
    (settings : ReassemblerSettings) (inputs : List Bytes) (count : Nat) :
    ∀ packet ∈ (Recording.run settings (inputs.map .receive)).block count,
      packet.WellFormed := by
  intro packet member
  have brought := (Recording.block_run_append settings [] (inputs.map .receive) count).subset member
  rw [List.mem_append] at brought
  rcases brought with nothing | later
  · cases nothing
  · obtain ⟨call, ofRun, brings⟩ := List.mem_filterMap.1 later
    obtain ⟨bytes, _, rfl⟩ := List.mem_map.1 ofRun
    cases parsed : Packet.parse bytes with
    | error cause => simp [Call.packet?, parsed, Except.toOption] at brings
    | ok found =>
        simp only [Call.packet?, parsed, Except.toOption, Option.map_some, Option.some_inj]
          at brings
        rw [← brings]
        exact Packet.wellFormed_of_parse parsed

/-- Whatever bytes have been received, the heaps of the table have bounded widths and lengths, and
any further bytes are read without a step that breaks. A packet that is read from them is added to
its heap, and the heap is resolved, in the same way. No slice is ever told to lie outside of its
heap, and a heap that is complete fails to be resolved for two causes only. -/
theorem unbroken_run (settings : ReassemblerSettings) (inputs : List Bytes) :
    let before := (Recording.run settings (inputs.map .receive)).reassembler
    (∀ count heap, before.heaps.get? count = some heap → heap.Bounded) ∧
    ∀ bytes,
      Yields (Packet.parse? bytes) (Packet.parse bytes) ∧
      (∀ packet used, Packet.parse bytes = .ok (packet, used) →
        packet.WellFormed ∧ before.Bears packet) ∧
      ∀ events, (before.insertBytes bytes).2 = .ok events →
        ∀ count start stop, .dropped (.invalidHeap count (.slice start stop)) ∉ events := by
  intro before
  have faithful : before.Faithful (Recording.run settings (inputs.map .receive)).block :=
    Recording.faithful_run settings _
  have bears {bytes : Bytes} {packet : Packet} {used : Nat}
      (parsed : Packet.parse bytes = .ok (packet, used)) :
      packet.WellFormed ∧ before.Bears packet :=
    ⟨Packet.wellFormed_of_parse parsed, faithful.bears (Packet.wellFormed_of_parse parsed)⟩
  constructor
  · intro count heap held
    obtain ⟨packet, member⟩ := List.exists_mem_of_ne_nil _ (faithful.begun count heap held)
    have wellFormed := Recording.wellFormed_of_mem_block settings inputs count packet member
    exact (faithful.made count heap held).bounded member wellFormed
  · intro bytes
    refine ⟨Packet.yields_parse? bytes, fun packet used parsed => bears parsed, ?_⟩
    intro events answered count start stop
    cases parsed : Packet.parse bytes with
    | error cause =>
        simp only [insertBytes, parsed] at answered
        cases answered
    | ok found =>
        obtain ⟨packet, used⟩ := found
        simp only [insertBytes, parsed, Except.ok.injEq] at answered
        rw [← answered]
        exact (inserts_insertPacket faithful.coherent packet).not_slice faithful.coherent
          (bears parsed).2 count start stop

end Reassembler
end Spead
