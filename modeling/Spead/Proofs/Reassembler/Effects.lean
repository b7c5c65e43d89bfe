import Spead.Proofs.Reassembler.Bounds

/-!
Calls as their own effects, followed by the end of the stream.

A call that ends the stream first has the effects that it would have anyway; only then the heaps
that are still incomplete are given up. Once the stream has ended, calls are counted and that is
all.
-/

namespace Spead
namespace Reassembler

/-- A reassembler that only counts a call. -/
def overlook (reassembler : Reassembler) (call : Call) : Reassembler :=
  match call, call.packet? with
  | .stop, _ => reassembler
  | _, some _ =>
      { reassembler with stats.packetsIgnored := reassembler.stats.packetsIgnored + 1 }
  | _, none =>
      { reassembler with stats.packetsMalformed := reassembler.stats.packetsMalformed + 1 }

theorem overlook_of_packet?
    (reassembler : Reassembler) {call : Call} {packet : Packet}
    (brought : call.packet? = some packet) :
    reassembler.overlook call =
      { reassembler with stats.packetsIgnored := reassembler.stats.packetsIgnored + 1 } := by
  cases call with
  | stop => cases brought
  | insert own => simp only [overlook, brought]
  | receive bytes => simp only [overlook, brought]

theorem recounts_overlook (reassembler : Reassembler) (call : Call) :
    reassembler.Recounts (reassembler.overlook call) := by
  unfold overlook
  split <;> exact ⟨rfl, rfl, rfl, rfl, rfl, rfl, rfl⟩

def receiving (reassembler : Reassembler) : Reassembler :=
  { reassembler with stats.packetsReceived := reassembler.stats.packetsReceived + 1 }

theorem recounts_receiving (reassembler : Reassembler) :
    reassembler.Recounts reassembler.receiving :=
  ⟨rfl, rfl, rfl, rfl, rfl, rfl, rfl⟩

/-- What a call does and tells in a stream that goes on, but for the end of it. -/
def effects (reassembler : Reassembler) (call : Call) : Step :=
  match call.packet? with
  | some packet =>
      if (reassembler.fate? packet.heapCount).isSome then
        (reassembler.overlook call, [])
      else
        reassembler.receiving.accept packet
  | none => (reassembler.overlook call, [])

/-- A request to stop, or a packet with the mark of the end, unless its heap is remembered as
finished. -/
def EndsStream (reassembler : Reassembler) (call : Call) : Prop :=
  call = .stop ∨ ∃ packet, call.packet? = some packet ∧ packet.carriesStop = true ∧
    reassembler.fate? packet.heapCount = none

theorem endsStream_of_packet?
    {reassembler : Reassembler} {call : Call} {packet : Packet}
    (brought : call.packet? = some packet) :
    reassembler.EndsStream call ↔
      packet.carriesStop = true ∧ reassembler.fate? packet.heapCount = none := by
  constructor
  · rintro (rfl | ⟨other, same, carries, fresh⟩)
    · cases brought
    · rw [brought] at same
      cases same
      exact ⟨carries, fresh⟩
  · rintro ⟨carries, fresh⟩
    exact Or.inr ⟨packet, brought, carries, fresh⟩

/-! ## The parts of a call -/

section Parts

variable {reassembler : Reassembler} {call : Call}

theorem call_of_packet?
    {packet : Packet} (brought : call.packet? = some packet) :
    reassembler.call call = reassembler.insertPacket packet := by
  cases call with
  | insert own =>
      cases brought
      rfl
  | stop => cases brought
  | receive bytes =>
      simp only [Call.packet?, Except.toOption] at brought
      cases parsing : Packet.parse bytes with
      | error cause => simp [parsing] at brought
      | ok result =>
          simp only [parsing, Option.map_some, Option.some_inj] at brought
          simp only [Reassembler.call, insertBytes, parsing, brought]

theorem insertPacket_of_passed
    {packet : Packet}
    (passed : reassembler.stopped = true ∨ (reassembler.fate? packet.heapCount).isSome)
    (brought : call.packet? = some packet) :
    reassembler.insertPacket packet = (reassembler.overlook call, []) := by
  rw [insertPacket, overlook_of_packet? reassembler brought, if_pos (by simpa using passed)]

theorem insertBytes_of_not_packet?
    {bytes : Bytes} (malformed : (Call.receive bytes).packet? = none) :
    reassembler.call (.receive bytes) = (reassembler.overlook (.receive bytes), []) := by
  cases parsing : Packet.parse bytes with
  | ok result => simp [Call.packet?, parsing, Except.toOption] at malformed
  | error cause => simp [Reassembler.call, insertBytes, overlook, malformed, parsing]

/-- Once the stream has ended, a call is counted and that is all. -/
theorem call_of_stopped (stopped : reassembler.stopped = true) (call : Call) :
    reassembler.call call = (reassembler.overlook call, []) := by
  cases brought : call.packet? with
  | some packet =>
      rw [call_of_packet? brought, insertPacket_of_passed (Or.inl stopped) brought]
  | none =>
      cases call with
      | insert own => cases brought
      | stop => simp only [Reassembler.call, stop, stopped, if_true, overlook]
      | receive bytes => exact insertBytes_of_not_packet? brought

theorem call_of_not_endsStream
    (running : reassembler.stopped = false) (goesOn : ¬ reassembler.EndsStream call) :
    reassembler.call call = reassembler.effects call := by
  cases brought : call.packet? with
  | some packet =>
      rw [endsStream_of_packet? brought, not_and] at goesOn
      rw [call_of_packet? brought, effects, brought]
      dsimp only
      split
      · next known => exact insertPacket_of_passed (Or.inr known) brought
      · next fresh =>
          have unmarked : ¬ packet.carriesStop = true := by
            intro carries
            exact goesOn carries (by simpa using fresh)
          rw [insertPacket, if_neg (by simpa [running] using fresh)]
          dsimp only
          rw [if_neg unmarked]
          rfl
  | none =>
      cases call with
      | insert own => cases brought
      | stop => exact absurd (Or.inl rfl) goesOn
      | receive bytes =>
          rw [insertBytes_of_not_packet? brought, effects, brought]

theorem call_of_endsStream
    (running : reassembler.stopped = false) (ends : reassembler.EndsStream call) :
    reassembler.call call =
      ((reassembler.effects call).1.stop.1,
        (reassembler.effects call).2 ++ (reassembler.effects call).1.stop.2) := by
  rcases ends with rfl | ⟨packet, brought, carries, fresh⟩
  · rfl
  · have taken : ¬ (reassembler.stopped || (reassembler.fate? packet.heapCount).isSome) = true := by
      simp [running, fresh]
    rw [call_of_packet? brought, insertPacket, if_neg taken, effects, brought]
    dsimp only
    rw [if_pos carries, if_neg (by simp [fresh])]
    rfl

/-- A call in a stream that has ended, one that does not end the stream, and one that does. -/
theorem call_cases (reassembler : Reassembler) (call : Call) :
    (reassembler.stopped = true ∧ reassembler.call call = (reassembler.overlook call, [])) ∨
    (reassembler.stopped = false ∧ ¬ reassembler.EndsStream call ∧
      reassembler.call call = reassembler.effects call) ∨
    (reassembler.stopped = false ∧ reassembler.EndsStream call ∧
      reassembler.call call =
        ((reassembler.effects call).1.stop.1,
          (reassembler.effects call).2 ++ (reassembler.effects call).1.stop.2)) := by
  by_cases stopped : reassembler.stopped = true
  · exact Or.inl ⟨stopped, call_of_stopped stopped call⟩
  · rw [Bool.not_eq_true] at stopped
    by_cases ends : reassembler.EndsStream call
    · exact Or.inr (Or.inr ⟨stopped, ends, call_of_endsStream stopped ends⟩)
    · exact Or.inr (Or.inl ⟨stopped, ends, call_of_not_endsStream stopped ends⟩)

/-- The effects of a call are those of a packet whose heap is not remembered, or none. -/
theorem effects_cases (reassembler : Reassembler) (call : Call) :
    (reassembler.effects call = (reassembler.overlook call, []) ∧
      ∀ packet, call.packet? = some packet → (reassembler.fate? packet.heapCount).isSome) ∨
    ∃ packet, call.packet? = some packet ∧ reassembler.fate? packet.heapCount = none ∧
      reassembler.effects call = reassembler.receiving.accept packet := by
  cases brought : call.packet? with
  | none => exact Or.inl ⟨by simp only [effects, brought], by simp⟩
  | some packet =>
      cases known : (reassembler.fate? packet.heapCount).isSome with
      | true =>
          refine Or.inl ⟨?_, ?_⟩
          · simp only [effects, brought, known, if_true]
          · intro other same
            cases same
            exact known
      | false =>
          refine Or.inr ⟨packet, rfl, by simpa using known, ?_⟩
          simp only [effects, brought, known, Bool.false_eq_true, if_false]

theorem accepts_effects
    {reassembler : Reassembler} {call : Call} {packet : Packet}
    (coherent : reassembler.Coherent) (brought : call.packet? = some packet)
    (fresh : reassembler.fate? packet.heapCount = none) :
    reassembler.Accepts packet (reassembler.effects call).1 (reassembler.effects call).2 := by
  have recounts := recounts_receiving reassembler
  simp only [effects, brought, fresh, Option.isSome_none, Bool.false_eq_true, if_false]
  exact .of_recounts recounts (accepts_accept (recounts.coherent coherent) packet)

theorem coherent_effects
    {reassembler : Reassembler} (coherent : reassembler.Coherent)
    (running : reassembler.stopped = false) (call : Call) :
    (reassembler.effects call).1.Coherent := by
  rcases reassembler.effects_cases call with ⟨same, _⟩ | ⟨packet, brought, fresh, _⟩
  · rw [same]
    exact (recounts_overlook reassembler call).coherent coherent
  · exact (accepts_effects coherent brought fresh).coherent coherent running fresh

theorem stopped_effects
    {reassembler : Reassembler} (coherent : reassembler.Coherent)
    (running : reassembler.stopped = false) (call : Call) :
    (reassembler.effects call).1.stopped = false := by
  rcases reassembler.effects_cases call with ⟨same, _⟩ | ⟨packet, brought, fresh, _⟩
  · rw [same]
    exact (recounts_overlook reassembler call).stopped.trans running
  · exact (accepts_effects coherent brought fresh).stopped coherent running fresh

theorem stopped_call (coherent : reassembler.Coherent) (call : Call) :
    (reassembler.call call).1.stopped = true ↔
      reassembler.stopped = true ∨ reassembler.EndsStream call := by
  rcases reassembler.call_cases call with ⟨stopped, same⟩ | ⟨running, goesOn, same⟩ |
    ⟨running, ends, same⟩
  · have still := (recounts_overlook reassembler call).stopped
    simp [same, stopped, still]
  · have still := stopped_effects coherent running call
    simp [same, running, goesOn, still]
  · simp [same, ends, stopped_stop]

theorem Coherent.answer (coherent : reassembler.Coherent) (call : Call) :
    (reassembler.call call).1.Coherent := by
  rcases reassembler.call_cases call with ⟨_, same⟩ | ⟨running, _, same⟩ | ⟨running, _, same⟩
  · rw [same]
    exact (recounts_overlook reassembler call).coherent coherent
  · rw [same]
    exact coherent_effects coherent running call
  · rw [same]
    exact coherent_stop (coherent_effects coherent running call)

end Parts

end Reassembler
end Spead
