import Spead.Proofs.Heap.Cutting
import Spead.Proofs.Packet.Codec
import Spead.Proofs.Stream.Sending
import Spead.Transport

/-!
Packets that stand one after the other in a buffer.

A packet says itself where it ends. A buffer is therefore split where its packets end, as far as
packets can be read, and what is behind them comes out in one piece. Packets that have been sent
into a buffer come out of it as they were.
-/

namespace Spead
namespace PacketBuffer

/-! ## Boundaries -/

/-- The bytes are one packet and nothing else. -/
def IsPacket (bytes : Bytes) : Prop :=
  ∃ packet, Packet.parse bytes = .ok (packet, bytes.length)

section Boundary

variable {buffer : Bytes}

theorem boundary_of_parse
    {packet : Packet} {used : Nat} (parsed : Packet.parse buffer = .ok (packet, used)) :
    boundary buffer = used := by
  rw [boundary, parsed]

theorem boundary_of_malformed
    {cause : PacketError} (malformed : Packet.parse buffer = .error cause) :
    boundary buffer = buffer.length := by
  rw [boundary, malformed]

theorem boundary_le_length (buffer : Bytes) : boundary buffer ≤ buffer.length := by
  cases parsed : Packet.parse buffer with
  | error cause => exact (boundary_of_malformed parsed).le
  | ok found =>
      rw [boundary_of_parse parsed]
      exact Packet.le_length_of_parse parsed

theorem pos_of_parse
    {packet : Packet} {used : Nat} (parsed : Packet.parse buffer = .ok (packet, used)) :
    0 < used := by
  obtain ⟨frame, _, _, _, rfl⟩ := Packet.exists_frame_of_parse parsed
  rw [Packet.Frame.size, Packet.headerSize]
  omega

theorem boundary_pos (occupied : buffer ≠ []) : 0 < boundary buffer := by
  cases parsed : Packet.parse buffer with
  | error cause =>
      rw [boundary_of_malformed parsed]
      exact List.length_pos_of_ne_nil occupied
  | ok found =>
      rw [boundary_of_parse parsed]
      exact pos_of_parse parsed

theorem IsPacket.ne_nil (isPacket : IsPacket buffer) : buffer ≠ [] := by
  obtain ⟨packet, parsed⟩ := isPacket
  exact List.ne_nil_of_length_pos (pos_of_parse parsed)

theorem IsPacket.boundary_append (isPacket : IsPacket buffer) (behind : Bytes) :
    boundary (buffer ++ behind) = buffer.length := by
  obtain ⟨packet, parsed⟩ := isPacket
  have longer := Packet.parse_take_append parsed behind
  rw [List.take_length] at longer
  exact boundary_of_parse longer

/-- Where something is left behind the boundary, there is a packet in front of it. -/
theorem isPacket_take_boundary (left : buffer.drop (boundary buffer) ≠ []) :
    IsPacket (buffer.take (boundary buffer)) := by
  cases parsed : Packet.parse buffer with
  | error cause =>
      rw [boundary_of_malformed parsed, List.drop_length] at left
      exact absurd rfl left
  | ok found =>
      obtain ⟨packet, used⟩ := found
      have alone := Packet.parse_take_append parsed []
      rw [List.append_nil] at alone
      refine ⟨packet, ?_⟩
      rw [List.length_take_of_le (boundary_le_length buffer), boundary_of_parse parsed, alone]

end Boundary

/-! ## Splitting -/

theorem receive_nil : receive [] = (.closed, []) :=
  rfl

theorem receive_of_ne_nil {buffer : Bytes} (occupied : buffer ≠ []) :
    receive buffer =
      (.packet (buffer.take (boundary buffer)), buffer.drop (boundary buffer)) := by
  rw [receive, if_neg]
  rwa [List.isEmpty_iff]

theorem length_drop_boundary_lt {buffer : Bytes} (occupied : buffer ≠ []) :
    (buffer.drop (boundary buffer)).length < buffer.length := by
  have := boundary_pos occupied
  have := List.length_pos_of_ne_nil occupied
  rw [List.length_drop]
  omega

theorem splitWithin_eq
    {buffer : Bytes} {count other : Nat} (enough : buffer.length ≤ count)
    (otherEnough : buffer.length ≤ other) :
    splitWithin count buffer = splitWithin other buffer := by
  induction count generalizing buffer other with
  | zero =>
      cases List.eq_nil_of_length_eq_zero (Nat.le_zero.1 enough)
      cases other with
      | zero => rfl
      | succ other => rfl
  | succ count inductionHypothesis =>
      by_cases occupied : buffer = []
      · subst occupied
        cases other with
        | zero => rfl
        | succ other => rfl
      · have shorter := length_drop_boundary_lt occupied
        cases other with
        | zero => omega
        | succ other =>
            rw [splitWithin, splitWithin, receive_of_ne_nil occupied]
            exact congrArg _ (inductionHypothesis (by omega) (by omega))

theorem split_nil : split [] = [] :=
  rfl

theorem split_of_ne_nil {buffer : Bytes} (occupied : buffer ≠ []) :
    split buffer = buffer.take (boundary buffer) :: split (buffer.drop (boundary buffer)) := by
  have shorter := length_drop_boundary_lt occupied
  obtain ⟨count, length⟩ := Nat.exists_eq_add_of_lt shorter
  rw [split, length, splitWithin, receive_of_ne_nil occupied]
  exact congrArg _ (splitWithin_eq (Nat.le_add_right _ _) le_rfl)

/-- What holds of the empty buffer, and of a buffer if it holds of what is left behind its first
packet, holds of every buffer. -/
theorem receive_induction
    {motive : Bytes → Prop} (nil : motive [])
    (more : ∀ buffer, buffer ≠ [] → motive (buffer.drop (boundary buffer)) → motive buffer)
    (buffer : Bytes) :
    motive buffer := by
  by_cases occupied : buffer = []
  · rwa [occupied]
  · exact more buffer occupied (receive_induction nil more _)
termination_by buffer.length
decreasing_by exact length_drop_boundary_lt occupied

/-- What a receiver is told that asks again and again. -/
def hear : (count : Nat) → (buffer : Bytes) → List Reading
  | 0, _ => []
  | count + 1, buffer =>
      let (reading, rest) := receive buffer
      reading :: hear count rest

/-- What is handed out for a buffer. -/
structure HandsOut (buffer : Bytes) (chunks : List Bytes) : Prop where
  /-- The chunks come first, and nothing ever after them. -/
  heard : ∀ more, hear (chunks.length + more) buffer =
    chunks.map Reading.packet ++ List.replicate more .closed
  occupied : ∀ chunk ∈ chunks, chunk ≠ []
  flatten : chunks.flatten = buffer
  isPacket : ∀ chunk ∈ chunks.dropLast, IsPacket chunk

theorem hear_nil (count : Nat) : hear count [] = List.replicate count .closed := by
  induction count with
  | zero => rfl
  | succ count inductionHypothesis =>
      rw [hear, receive_nil, List.replicate_succ]
      exact congrArg _ inductionHypothesis

theorem handsOut_nil : HandsOut [] [] where
  heard more := by
    rw [List.length_nil, Nat.zero_add, hear_nil]
    rfl
  occupied := by simp
  flatten := rfl
  isPacket := by simp

theorem HandsOut.cons
    {buffer : Bytes} {chunks : List Bytes} (occupied : buffer ≠ [])
    (later : HandsOut (buffer.drop (boundary buffer)) chunks) :
    HandsOut buffer (buffer.take (boundary buffer) :: chunks) where
  heard more := by
    rw [List.length_cons, Nat.add_right_comm, hear, receive_of_ne_nil occupied, List.map_cons,
      List.cons_append]
    exact congrArg _ (later.heard more)
  occupied := by
    rw [List.forall_mem_cons]
    refine ⟨?_, later.occupied⟩
    apply List.ne_nil_of_length_pos
    rw [List.length_take_of_le (boundary_le_length buffer)]
    exact boundary_pos occupied
  flatten := by
    rw [List.flatten_cons, later.flatten, List.take_append_drop]
  isPacket := by
    cases chunks with
    | nil => simp
    | cons next rest =>
        rw [List.dropLast_cons_of_ne_nil (List.cons_ne_nil _ _), List.forall_mem_cons]
        refine ⟨isPacket_take_boundary ?_, later.isPacket⟩
        rw [← later.flatten, List.flatten_cons]
        exact List.append_ne_nil_of_left_ne_nil (later.occupied next List.mem_cons_self) _

theorem handsOut_split (buffer : Bytes) : HandsOut buffer (split buffer) := by
  induction buffer using receive_induction with
  | nil => exact handsOut_nil
  | more buffer occupied inductionHypothesis =>
      rw [split_of_ne_nil occupied]
      exact inductionHypothesis.cons occupied

theorem IsPacket.split_append {bytes : Bytes} (isPacket : IsPacket bytes) (behind : Bytes) :
    split (bytes ++ behind) = bytes :: split behind := by
  rw [split_of_ne_nil (List.append_ne_nil_of_left_ne_nil isPacket.ne_nil behind),
    isPacket.boundary_append, List.take_left, List.drop_left]

theorem split_flatten_append
    {wires : List Bytes} (packets : ∀ wire ∈ wires, IsPacket wire) (behind : Bytes) :
    split (wires.flatten ++ behind) = wires ++ split behind := by
  induction wires with
  | nil => rfl
  | cons wire rest inductionHypothesis =>
      rw [List.forall_mem_cons] at packets
      rw [List.flatten_cons, List.append_assoc, packets.1.split_append,
        inductionHypothesis packets.2, List.cons_append]

theorem split_of_malformed
    {tail : Bytes} {cause : PacketError} (occupied : tail ≠ [])
    (malformed : Packet.parse tail = .error cause) :
    split tail = [tail] := by
  rw [split_of_ne_nil occupied, boundary_of_malformed malformed, List.take_length,
    List.drop_length, split_nil]

/-! ## Packets that have been sent -/

theorem isPacket_of_mem_packetBytes
    {heap : Heap} {maxPacketSize : Nat} {wires : List Bytes} (avoids : heap.AvoidsPacketItems)
    (cut : heap.packetBytes maxPacketSize = .ok wires) {wire : Bytes} (member : wire ∈ wires) :
    IsPacket wire := by
  rw [Heap.packetBytes, Except.map_eq_ok_iff] at cut
  obtain ⟨packets, ofHeap, rfl⟩ := cut
  obtain ⟨packet, inCut, rfl⟩ := List.mem_map.1 member
  have cuts : heap.Cuts packet := ⟨maxPacketSize, packets, ofHeap, inCut⟩
  refine ⟨packet, ?_⟩
  rw [packet.length_toBytes]
  exact cuts.parse avoids

theorem isPacket_of_mem_accepted
    {heap : Heap} {maxPacketSize : Nat} {attempt : SendStream.Attempt}
    (attempted : SendStream.Attempts maxPacketSize heap attempt) (avoids : heap.AvoidsPacketItems)
    {wire : Bytes} (member : wire ∈ SendStream.accepted attempt.offers) :
    IsPacket wire := by
  cases attempted with
  | uncut failed => cases member
  | cut cut handing =>
      exact isPacket_of_mem_packetBytes avoids cut (handing.accepted_prefix.subset member)

theorem isPacket_of_mem_flatten
    {heaps : List Heap} {maxPacketSize : Nat} {attempts : List SendStream.Attempt}
    (attempted : List.Forall₂ (SendStream.Attempts maxPacketSize) heaps attempts)
    (avoids : ∀ heap ∈ heaps, heap.AvoidsPacketItems) {wire : Bytes}
    (member : wire ∈ (attempts.map fun attempt => SendStream.accepted attempt.offers).flatten) :
    IsPacket wire := by
  induction attempted with
  | nil => cases member
  | cons first _ inductionHypothesis =>
      rw [List.forall_mem_cons] at avoids
      rw [List.map_cons, List.flatten_cons, List.mem_append] at member
      cases member with
      | inl ofFirst => exact isPacket_of_mem_accepted first avoids.1 ofFirst
      | inr ofLater => exact inductionHypothesis avoids.2 ofLater

/-- A store keeps what it accepts. -/
theorem packets_of_answered
    {start final : PacketStore} {offers : List SendStream.Offer}
    (answered : SendStream.Answered PacketStore.accept start offers final) :
    final.packets.reverse = start.packets.reverse ++ SendStream.accepted offers := by
  induction answered with
  | nil state => exact (List.append_nil _).symm
  | cons said _ inductionHypothesis =>
      rw [inductionHypothesis]
      unfold PacketStore.accept at said
      split at said
      · cases said
        rfl
      · cases said
        rw [List.reverse_cons, List.append_assoc]
        rfl

/-- Whatever a buffer holds, it is handed out in chunks that are not empty and make up the buffer,
and all of them but the last are packets. Of heaps that are sent into a buffer, the packets come out
that the buffer has accepted, as they were and in their order, and what stands behind them comes out
in one piece if no packet can be read from it. If the sender was told of success each time, these
are all packets of the heaps. -/
theorem handed_out_as_sent :
    (∀ buffer, HandsOut buffer (split buffer)) ∧
    ∀ (stream : SendStream PacketStore) (heaps : List Heap),
      stream.sink.packets = [] → (∀ heap ∈ heaps, heap.AvoidsPacketItems) →
      let final := (stream.sendAll PacketStore.accept heaps).2.sink
      split final.toBytes = final.packets.reverse ∧
      (∀ (tail : Bytes) (cause : PacketError), tail ≠ [] → Packet.parse tail = .error cause →
        split (final.toBytes ++ tail) = final.packets.reverse ++ [tail]) ∧
      ((∀ answer ∈ (stream.sendAll PacketStore.accept heaps).1, answer = .ok ()) →
        ∃ wires : List (List Bytes),
          List.Forall₂ (fun heap own => heap.packetBytes stream.maxPacketSize = .ok own)
            heaps wires ∧
          final.packets.reverse = wires.flatten) := by
  refine ⟨handsOut_split, ?_⟩
  intro stream heaps empty avoids final
  obtain ⟨attempts, attempted, answers, offered, _⟩ :=
    SendStream.exists_attempts_sendAll PacketStore.accept heaps stream
  have kept : final.packets.reverse =
      (attempts.map fun attempt => SendStream.accepted attempt.offers).flatten := by
    rw [packets_of_answered offered.answered, empty, SendStream.accepted_flatMap, List.flatMap_def]
    rfl
  have packets : ∀ wire ∈ final.packets.reverse, IsPacket wire := by
    intro wire member
    rw [kept] at member
    exact isPacket_of_mem_flatten attempted avoids member
  refine ⟨?_, ?_, ?_⟩
  · have alone := split_flatten_append packets []
    rwa [split_nil, List.append_nil, List.append_nil] at alone
  · intro tail cause occupied malformed
    rw [← split_of_malformed occupied malformed]
    exact split_flatten_append packets tail
  · intro succeeded
    rw [answers, List.forall_mem_map] at succeeded
    refine ⟨_, ?_, kept⟩
    rw [List.forall₂_map_right_iff]
    exact SendStream.packetBytes_of_answers attempted succeeded

/-- Two heaps in two packets each, and three bytes behind them. -/
theorem handed_out_as_sent_of_two_heaps :
    let heap (count : Nat) : Heap := ⟨count, .standard, [⟨0x1000, .bytes [1, 2] false⟩]⟩
    let stream : SendStream PacketStore := { sink := {}, flavour := .standard, maxPacketSize := 49 }
    let final := (stream.sendAll PacketStore.accept [heap 1, heap 2]).2.sink
    HandsOut (final.toBytes ++ [1, 2, 3]) (split (final.toBytes ++ [1, 2, 3])) ∧
    ∃ first second : List Bytes,
      (heap 1).packetBytes 49 = .ok first ∧ (heap 2).packetBytes 49 = .ok second ∧
      first.length = 2 ∧ second.length = 2 ∧
      split final.toBytes = first ++ second ∧
      split (final.toBytes ++ [1, 2, 3]) = first ++ second ++ [[1, 2, 3]] := by
  intro heap stream final
  have avoids : ∀ own ∈ [heap 1, heap 2], own.AvoidsPacketItems := by
    simp [Heap.AvoidsPacketItems, heap, ItemId.payloadLength]
  have malformed : Packet.parse [1, 2, 3] = .error (.tooShort 8 3) := by
    decide +kernel
  have succeeded : ∀ answer ∈ (stream.sendAll PacketStore.accept [heap 1, heap 2]).1,
      answer = .ok () := by
    decide +kernel
  have lengths : ∀ count ∈ [1, 2],
      ((heap count).packetBytes 49).toOption.map List.length = some 2 := by
    decide +kernel
  obtain ⟨splits, sent⟩ := handed_out_as_sent
  obtain ⟨alone, withTail, whole⟩ := sent stream [heap 1, heap 2] rfl avoids
  obtain ⟨wires, cut, kept⟩ := whole succeeded
  obtain ⟨first, _, cutFirst, others, rfl⟩ := List.forall₂_cons_left_iff.1 cut
  obtain ⟨second, _, cutSecond, none, rfl⟩ := List.forall₂_cons_left_iff.1 others
  cases List.forall₂_nil_left_iff.1 none
  rw [List.flatten_cons, List.flatten_cons, List.flatten_nil, List.append_nil] at kept
  have ofFirst := lengths 1 (by decide)
  have ofSecond := lengths 2 (by decide)
  change (heap 1).packetBytes 49 = .ok first at cutFirst
  change (heap 2).packetBytes 49 = .ok second at cutSecond
  rw [cutFirst, Except.toOption, Option.map_some, Option.some_inj] at ofFirst
  rw [cutSecond, Except.toOption, Option.map_some, Option.some_inj] at ofSecond
  refine ⟨splits _, first, second, cutFirst, cutSecond, ofFirst, ofSecond, ?_, ?_⟩
  · rw [← kept]
    exact alone
  · rw [← kept]
    exact withTail [1, 2, 3] _ (by decide) malformed

end PacketBuffer
end Spead
