import Spead.Proofs.Reassembler.Integrity
import Spead.Proofs.Stream.Receiver

/-!
What a receive stream hands out when its source tells only of packets of known heaps.

Packets may be lost, repeated and mixed up, and the stream may be stopped at any point. A heap that
the application gets is one of those that were sent; everything else it gets tells of a heap that
was given up.
-/

namespace Spead

/-- The source tells of one of these packets, that there is nothing yet, or that there is nothing
any more. It does not fail. -/
def Reading.DrawnFrom (packets : List Bytes) : Reading → Prop
  | .packet bytes => bytes ∈ packets
  | .pending => True
  | .closed => True
  | .failed _ => False

namespace ReceiveStream

open Reassembler (Call Drawn Recording)

section Sent

variable {settings : ReassemblerSettings} {sent : List Heap} {packets : List Bytes}
  {readings : List Reading}

theorem fedBy_eq_run (settings : ReassemblerSettings) (readings : List Reading) :
    (fedBy settings readings).1 =
      (Recording.run settings ((readings.filterMap Reading.packet?).map Call.receive)).reassembler := by
  induction readings using List.reverseRecOn with
  | nil => rfl
  | append_singleton readings reading inductionHypothesis =>
      cases reading with
      | packet bytes =>
          rw [fedBy_packet, inductionHypothesis, List.filterMap_append, List.map_append]
          exact (congrArg Recording.reassembler (Recording.run_append_singleton _ _ _)).symm
      | pending | closed | failed _ =>
          rw [fedBy_of_not_packet settings readings rfl, inductionHypothesis,
            List.filterMap_append, List.filterMap_cons_none rfl, List.filterMap_nil,
            List.append_nil]

variable (distinct : (sent.map Heap.count).Nodup)
  (avoids : ∀ heap ∈ sent, heap.AvoidsPacketItems)
  (compat : ∀ heap ∈ sent, heap.flavour.compat = settings.compat)
  (ofSent : ∀ bytes ∈ packets, Drawn sent (.receive bytes))

include distinct avoids compat ofSent

theorem exists_sent_of_fedBy
    (drawn : ∀ reading ∈ readings, reading.DrawnFrom packets) {received : ReceivedHeap}
    (told : .heap received ∈ (fedBy settings readings).2) :
    ∃ heap ∈ sent, heap.delivered? = some received := by
  induction readings using List.reverseRecOn with
  | nil => cases told
  | append_singleton readings reading inductionHypothesis =>
      rw [List.forall_mem_append, List.forall_mem_singleton] at drawn
      obtain ⟨before, last⟩ := drawn
      cases reading with
      | packet bytes =>
          rw [fedBy_packet, List.mem_append] at told
          rcases told with earlier | new
          · exact inductionHypothesis before earlier
          · rw [fedBy_eq_run] at new
            have drawnCalls : ∀ given ∈
                (readings.filterMap Reading.packet?).map Call.receive ++ [.receive bytes],
                Drawn sent given := by
              rw [List.forall_mem_append, List.forall_mem_singleton]
              refine ⟨?_, ofSent bytes last⟩
              intro given member
              obtain ⟨other, ofReadings, rfl⟩ := List.mem_map.1 member
              obtain ⟨reading, listed, brought⟩ := List.mem_filterMap.1 ofReadings
              have own := before reading listed
              cases reading with
              | packet bytes =>
                  cases brought
                  exact ofSent _ own
              | pending | closed | failed _ => cases brought
            obtain ⟨heap, member, _, delivered, _⟩ :=
              Reassembler.exists_delivered_of_told distinct avoids compat drawnCalls new
            exact ⟨heap, member, delivered⟩
      | pending | closed | failed _ =>
          rw [fedBy_of_not_packet settings readings rfl] at told
          exact inductionHypothesis before told

/-- The application gets heaps that were sent, and is told of heaps that were given up. -/
theorem sent_or_reassembly_of_mem_delivered
    (drawn : ∀ reading ∈ readings, reading.DrawnFrom packets) {halted : Bool}
    {result : ReceiveResult} (member : result ∈ delivered settings readings halted) :
    (∃ heap ∈ sent, ∃ received, heap.delivered? = some received ∧ result = .ok received) ∨
      ∃ cause : ReassemblyError, result = .error (cause : Error) := by
  have unfailing : readings.filterMap Reading.failure? = [] := by
    rw [List.filterMap_eq_nil_iff]
    intro reading listed
    have own := drawn reading listed
    cases reading with
    | packet _ | pending | closed => rfl
    | failed _ => exact own.elim
  rw [delivered, unfailing, List.append_nil] at member
  obtain ⟨event, told, shown⟩ := List.mem_filterMap.1 member
  cases event with
  | endOfStream => cases shown
  | dropped cause =>
      cases shown
      exact Or.inr ⟨cause, rfl⟩
  | heap received =>
      cases shown
      have fed : .heap received ∈ (fedBy settings readings).2 := by
        cases ending : isOver readings halted with
        | false => rwa [settled_of_not_isOver ending] at told
        | true =>
            rw [settled_of_isOver ending, List.mem_append] at told
            rcases told with before | stopped
            · exact before
            · rcases Reassembler.mem_stop (coherent_fedBy settings readings) stopped with
                ended | ⟨_, _, dropped⟩
              · cases ended
              · cases dropped
      obtain ⟨heap, ofList, delivered⟩ :=
        exists_sent_of_fedBy distinct avoids compat ofSent drawn fed
      exact Or.inl ⟨heap, ofList, received, delivered, rfl⟩

end Sent

end ReceiveStream
end Spead
