import Spead.Proofs.Except
import Spead.Stream.Sender

/-!
What a send stream hands to its sink, and what it counts.

A sink may refuse a packet for any reason. The packets of a heap are offered in their order until
one is refused, and the next heap is attempted all the same. The counters tell at every point what
the sink has accepted.
-/

namespace Spead

namespace SendStream

/-! ## Offers -/

/-- A packet that a sink is offered, and what the sink says to it. -/
structure Offer where
  packet : Bytes
  answer : Except Error Unit

/-- The offer of a packet that is accepted. -/
def Offer.taken (packet : Bytes) : Offer :=
  ⟨packet, .ok ()⟩

def accepted (offers : List Offer) : List Bytes :=
  (offers.filter fun offer => offer.answer.isOk).map Offer.packet

theorem accepted_append (first later : List Offer) :
    accepted (first ++ later) = accepted first ++ accepted later := by
  simp [accepted]

theorem accepted_flatMap (attempts : List α) (offers : α → List Offer) :
    accepted (attempts.flatMap offers) =
      attempts.flatMap fun attempt => accepted (offers attempt) := by
  simp only [accepted, List.filter_flatMap, List.map_flatMap]

theorem accepted_taken (packets : List Bytes) :
    accepted (packets.map Offer.taken) = packets := by
  have all : (packets.map Offer.taken).filter (fun offer => offer.answer.isOk) =
      packets.map Offer.taken := by
    rw [List.filter_eq_self]
    intro offer member
    obtain ⟨packet, _, rfl⟩ := List.mem_map.1 member
    rfl
  rw [accepted, all, List.map_map]
  exact List.map_id packets

theorem accepted_broken (before : List Bytes) (refused : Bytes) (cause : Error) :
    accepted (before.map Offer.taken ++ [⟨refused, .error cause⟩]) = before := by
  rw [accepted_append, accepted_taken]
  exact List.append_nil before

/-- How packets are handed to a sink, and what comes of it: the sink accepts all of them, or those
before the first that it refuses. Nothing is offered behind a packet that is refused. -/
inductive Handing : List Bytes → List Offer → Except Error Unit → Prop
  | whole (packets : List Bytes) :
      Handing packets (packets.map Offer.taken) (.ok ())
  | broken (before after : List Bytes) (refused : Bytes) (cause : Error) :
      Handing (before ++ refused :: after) (before.map Offer.taken ++ [⟨refused, .error cause⟩])
        (.error cause)

section Handing

variable {packets : List Bytes} {offers : List Offer} {answer : Except Error Unit}

theorem Handing.cons (handing : Handing packets offers answer) (packet : Bytes) :
    Handing (packet :: packets) (.taken packet :: offers) answer := by
  cases handing with
  | whole packets => exact .whole (packet :: packets)
  | broken before after refused cause => exact .broken (packet :: before) after refused cause

theorem Handing.accepted_prefix (handing : Handing packets offers answer) :
    accepted offers <+: packets := by
  cases handing with
  | whole packets => exact ⟨[], by rw [accepted_taken, List.append_nil]⟩
  | broken before after refused cause =>
      rw [accepted_broken]
      exact List.prefix_append _ _

theorem Handing.answer_eq_ok_iff (handing : Handing packets offers answer) :
    answer = .ok () ↔ accepted offers = packets := by
  cases handing with
  | whole packets => simp [accepted_taken]
  | broken before after refused cause => simp [accepted_broken]

end Handing

/-! ## Heaps -/

section Sink

variable {sink : Type} {accept : sink → Bytes → Except Error Unit × sink}

/-- Offers that are made to a sink one after the other, each with the answer that the sink gives,
and what becomes of the sink. -/
inductive Answered (accept : sink → Bytes → Except Error Unit × sink) :
    sink → List Offer → sink → Prop
  | nil (state : sink) :
      Answered accept state [] state
  | cons {state next final : sink} {packet : Bytes} {answer : Except Error Unit}
      {rest : List Offer} :
      accept state packet = (answer, next) →
      Answered accept next rest final →
      Answered accept state (⟨packet, answer⟩ :: rest) final

theorem Answered.append
    {start middle final : sink} {first later : List Offer}
    (answered : Answered accept start first middle)
    (answeredLater : Answered accept middle later final) :
    Answered accept start (first ++ later) final := by
  induction answered with
  | nil _ => exact answeredLater
  | cons said _ inductionHypothesis => exact .cons said (inductionHypothesis answeredLater)

/-- A stream whose sink has been offered packets. -/
structure Offered
    (accept : sink → Bytes → Except Error Unit × sink) (before : SendStream sink)
    (offers : List Offer) (after : SendStream sink) : Prop where
  answered : Answered accept before.sink offers after.sink
  packets : after.stats.packets = before.stats.packets + (accepted offers).length
  bytes : after.stats.bytes = before.stats.bytes + ((accepted offers).map List.length).sum
  flavour : after.flavour = before.flavour
  maxPacketSize : after.maxPacketSize = before.maxPacketSize

theorem offered_nothing (stream : SendStream sink) : Offered accept stream [] stream :=
  ⟨.nil _, rfl, rfl, rfl, rfl⟩

theorem Offered.trans
    {before middle after : SendStream sink} {first later : List Offer}
    (offered : Offered accept before first middle)
    (offeredLater : Offered accept middle later after) :
    Offered accept before (first ++ later) after where
  answered := offered.answered.append offeredLater.answered
  packets := by
    rw [offeredLater.packets, offered.packets, accepted_append, List.length_append, Nat.add_assoc]
  bytes := by
    rw [offeredLater.bytes, offered.bytes, accepted_append, List.map_append, List.sum_append,
      Nat.add_assoc]
  flavour := offeredLater.flavour.trans offered.flavour
  maxPacketSize := offeredLater.maxPacketSize.trans offered.maxPacketSize

theorem exists_handing_sendPackets
    (accept : sink → Bytes → Except Error Unit × sink) (packets : List Bytes)
    (stream : SendStream sink) :
    ∃ offers, Handing packets offers (stream.sendPackets accept packets).1 ∧
      Offered accept stream offers (stream.sendPackets accept packets).2 ∧
      (stream.sendPackets accept packets).2.stats.heaps = stream.stats.heaps := by
  induction packets generalizing stream with
  | nil => exact ⟨[], .whole [], offered_nothing stream, rfl⟩
  | cons packet rest inductionHypothesis =>
      unfold sendPackets
      split
      · next cause next said =>
          exact ⟨_, .broken [] rest packet cause, ⟨.cons said (.nil next), rfl, rfl, rfl, rfl⟩, rfl⟩
      · next next said =>
          obtain ⟨offers, handing, offered, heaps⟩ := inductionHypothesis (stream.count next packet)
          have first : Offered accept stream [.taken packet] (stream.count next packet) :=
            ⟨.cons said (.nil next), rfl, rfl, rfl, rfl⟩
          exact ⟨_, handing.cons packet, first.trans offered, heaps⟩

/-- What comes of a heap that is given to a stream. -/
structure Attempt where
  /-- The packets that the sink is offered. -/
  offers : List Offer
  /-- What the sender is told. -/
  answer : Except Error Unit

/-- A heap that cannot be cut into packets is not offered at all. -/
inductive Attempts (maxPacketSize : Nat) (heap : Heap) : Attempt → Prop
  | uncut {cause : PacketError} :
      heap.packetBytes maxPacketSize = .error cause →
      Attempts maxPacketSize heap ⟨[], .error (cause : Error)⟩
  | cut {packets : List Bytes} {offers : List Offer} {answer : Except Error Unit} :
      heap.packetBytes maxPacketSize = .ok packets →
      Handing packets offers answer →
      Attempts maxPacketSize heap ⟨offers, answer⟩

theorem Attempts.answer_eq_ok_iff
    {maxPacketSize : Nat} {heap : Heap} {attempt : Attempt}
    (attempts : Attempts maxPacketSize heap attempt) :
    attempt.answer = .ok () ↔ heap.packetBytes maxPacketSize = .ok (accepted attempt.offers) := by
  cases attempts with
  | uncut failed => simp [failed]
  | cut cut handing =>
      rw [handing.answer_eq_ok_iff, cut, Except.ok.injEq]
      exact eq_comm

theorem Attempts.accepted_prefix
    {maxPacketSize : Nat} {heap : Heap} {attempt : Attempt}
    (attempts : Attempts maxPacketSize heap attempt) {packets : List Bytes}
    (cut : heap.packetBytes maxPacketSize = .ok packets) :
    accepted attempt.offers <+: packets := by
  cases attempts with
  | uncut failed => exact List.nil_prefix
  | cut own handing =>
      rw [own] at cut
      cases cut
      exact handing.accepted_prefix

theorem packetBytes_of_answers
    {maxPacketSize : Nat} {heaps : List Heap} {attempts : List Attempt}
    (attempted : List.Forall₂ (Attempts maxPacketSize) heaps attempts)
    (succeeded : ∀ attempt ∈ attempts, attempt.answer = .ok ()) :
    List.Forall₂ (fun heap attempt =>
      heap.packetBytes maxPacketSize = .ok (accepted attempt.offers)) heaps attempts := by
  induction attempted with
  | nil => exact .nil
  | cons first _ inductionHypothesis =>
      rw [List.forall_mem_cons] at succeeded
      exact .cons (first.answer_eq_ok_iff.1 succeeded.1) (inductionHypothesis succeeded.2)

theorem sendHeap_of_uncut
    (accept : sink → Bytes → Except Error Unit × sink) {stream : SendStream sink} {heap : Heap}
    {cause : PacketError} (failed : heap.packetBytes stream.maxPacketSize = .error cause) :
    stream.sendHeap accept heap = (.error (cause : Error), stream) := by
  rw [sendHeap, failed]

theorem exists_attempts_sendHeap
    (accept : sink → Bytes → Except Error Unit × sink) (stream : SendStream sink) (heap : Heap) :
    ∃ attempt, Attempts stream.maxPacketSize heap attempt ∧
      (stream.sendHeap accept heap).1 = attempt.answer ∧
      Offered accept stream attempt.offers (stream.sendHeap accept heap).2 ∧
      (stream.sendHeap accept heap).2.stats.heaps =
        stream.stats.heaps + attempt.answer.isOk.toNat := by
  cases cut : heap.packetBytes stream.maxPacketSize with
  | error cause =>
      rw [sendHeap_of_uncut accept cut]
      exact ⟨_, .uncut cut, rfl, offered_nothing stream, rfl⟩
  | ok packets =>
      obtain ⟨offers, handing, offered, heaps⟩ := exists_handing_sendPackets accept packets stream
      refine ⟨_, .cut cut handing, ?_⟩
      rw [sendHeap, cut]
      dsimp only
      split
      · next cause stopped sent =>
          rw [sent] at offered heaps ⊢
          exact ⟨rfl, offered, heaps⟩
      · next done sent =>
          rw [sent] at offered heaps ⊢
          refine ⟨rfl, ?_, congrArg Nat.succ heaps⟩
          exact ⟨offered.answered, offered.packets, offered.bytes, offered.flavour,
            offered.maxPacketSize⟩

/-! ## Runs -/

/-- Give heaps to a stream one after the other, whatever became of those before. -/
def sendAll (accept : sink → Bytes → Except Error Unit × sink) :
    List Heap → SendStream sink → List (Except Error Unit) × SendStream sink
  | [], stream => ([], stream)
  | heap :: rest, stream =>
      let (answer, next) := stream.sendHeap accept heap
      let (answers, final) := sendAll accept rest next
      (answer :: answers, final)

theorem exists_attempts_sendAll
    (accept : sink → Bytes → Except Error Unit × sink) (heaps : List Heap)
    (stream : SendStream sink) :
    ∃ attempts : List Attempt,
      List.Forall₂ (Attempts stream.maxPacketSize) heaps attempts ∧
      (stream.sendAll accept heaps).1 = attempts.map Attempt.answer ∧
      Offered accept stream (attempts.flatMap Attempt.offers) (stream.sendAll accept heaps).2 ∧
      (stream.sendAll accept heaps).2.stats.heaps =
        stream.stats.heaps + attempts.countP fun attempt => attempt.answer.isOk := by
  induction heaps generalizing stream with
  | nil => exact ⟨[], .nil, rfl, offered_nothing stream, rfl⟩
  | cons heap rest inductionHypothesis =>
      obtain ⟨attempt, attempted, answer, offered, counted⟩ :=
        exists_attempts_sendHeap accept stream heap
      obtain ⟨attempts, attemptedLater, answers, offeredLater, countedLater⟩ :=
        inductionHypothesis (stream.sendHeap accept heap).2
      rw [offered.maxPacketSize] at attemptedLater
      refine ⟨attempt :: attempts, .cons attempted attemptedLater, ?_, ?_, ?_⟩
      · rw [sendAll, List.map_cons, ← answer, ← answers]
      · rw [List.flatMap_cons]
        exact offered.trans offeredLater
      · rw [sendAll, countedLater, counted, List.countP_cons, Nat.add_assoc,
          Nat.add_comm attempt.answer.isOk.toNat]
        cases attempt.answer.isOk with
        | false => rfl
        | true => rfl

/-- Of every heap the sink accepts the packets before the first one that it refuses, and none if the
heap cannot be cut into packets, which leaves the stream as it was. The sender is told of success
exactly if all packets of the heap were accepted. Packets and bytes are counted as they are
accepted, and a heap is counted when all of it is. -/
theorem counts_what_is_accepted
    (accept : sink → Bytes → Except Error Unit × sink) (stream : SendStream sink)
    (heaps : List Heap) :
    (∀ heap (cause : PacketError), heap.packetBytes stream.maxPacketSize = .error cause →
      stream.sendHeap accept heap = (.error (cause : Error), stream)) ∧
    ∃ attempts : List Attempt,
      List.Forall₂ (fun heap attempt =>
        Attempts stream.maxPacketSize heap attempt ∧
        (∀ packets, heap.packetBytes stream.maxPacketSize = .ok packets →
          accepted attempt.offers <+: packets) ∧
        (attempt.answer = .ok () ↔
          heap.packetBytes stream.maxPacketSize = .ok (accepted attempt.offers)))
        heaps attempts ∧
      (stream.sendAll accept heaps).1 = attempts.map Attempt.answer ∧
      Answered accept stream.sink (attempts.flatMap Attempt.offers)
        (stream.sendAll accept heaps).2.sink ∧
      (stream.sendAll accept heaps).2.stats =
        { heaps := stream.stats.heaps + attempts.countP fun attempt => attempt.answer.isOk
          packets := stream.stats.packets +
            (accepted (attempts.flatMap Attempt.offers)).length
          bytes := stream.stats.bytes +
            ((accepted (attempts.flatMap Attempt.offers)).map List.length).sum } := by
  obtain ⟨attempts, attempted, answers, offered, counted⟩ :=
    exists_attempts_sendAll accept heaps stream
  refine ⟨fun _ _ => sendHeap_of_uncut accept, attempts, ?_, answers, offered.answered, ?_⟩
  · refine attempted.imp fun heap attempt attempts => ⟨attempts, ?_, attempts.answer_eq_ok_iff⟩
    intro packets cut
    exact attempts.accepted_prefix cut
  · rw [← counted, ← offered.packets, ← offered.bytes]

end Sink

/-- A sink that refuses the second packet that it is offered stops the first of two heaps and takes
the other. -/
theorem counts_what_is_accepted_of_two_heaps :
    let accept (offered : Nat) (_ : Bytes) : Except Error Unit × Nat :=
      (if offered = 1 then .error (TransportError.closed : Error) else .ok (), offered + 1)
    let heap (count : Nat) : Heap := ⟨count, .standard, [⟨0x1000, .bytes [1, 2] false⟩]⟩
    let stream : SendStream Nat := { sink := 0, flavour := .standard, maxPacketSize := 49 }
    let final := (stream.sendAll accept [heap 1, heap 2]).2
    final.stats = { heaps := 1, packets := 3, bytes := 147 } ∧
    ∃ first second : Attempt,
      first.answer = .error (TransportError.closed : Error) ∧ second.answer = .ok () ∧
      (accepted first.offers).length = 1 ∧ (accepted second.offers).length = 2 := by
  intro accept heap stream final
  obtain ⟨_, attempts, attempted, answers, _, stats⟩ :=
    counts_what_is_accepted accept stream [heap 1, heap 2]
  have counted : final.stats = { heaps := 1, packets := 3, bytes := 147 } := by
    decide +kernel
  have cut : ((heap 2).packetBytes 49).toOption.map List.length = some 2 := by
    decide +kernel
  obtain ⟨first, _, _, others, rfl⟩ := List.forall₂_cons_left_iff.1 attempted
  obtain ⟨second, _, ⟨_, _, succeeded⟩, none, rfl⟩ := List.forall₂_cons_left_iff.1 others
  cases List.forall₂_nil_left_iff.1 none
  have told : [.error (TransportError.closed : Error), .ok ()] = [first.answer, second.answer] :=
    answers
  rw [List.cons.injEq, List.cons.injEq] at told
  have whole := succeeded.1 told.2.1.symm
  change (heap 2).packetBytes 49 = _ at whole
  rw [whole, Except.toOption, Option.map_some, Option.some_inj] at cut
  have sum : 3 = 0 + (accepted (first.offers ++ (second.offers ++ []))).length :=
    congrArg SendStats.packets (counted.symm.trans stats)
  rw [List.append_nil, accepted_append, List.length_append, cut] at sum
  exact ⟨counted, first, second, told.1.symm, told.2.1.symm, by omega, cut⟩

end SendStream
end Spead
