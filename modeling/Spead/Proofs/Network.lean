import Mathlib.Data.List.Perm.Subperm
import Mathlib.Tactic.Ring
import Spead.Network
import Spead.Proofs.Simulation.Items
import Spead.Random.Mixing

/-!
What becomes of packets in a network.

Packets are followed through any sending, receiving and draining, whatever fates are drawn and
however the clock goes on. Each packet is on its way in as many copies as its fate says, and each
copy is on its way or has been handed out, once. Between two copies only chance can change the
order, so one cannot overtake another that was sent on its way long before.
-/

namespace Spead

/-! ## Chance -/

namespace NetworkSettings

/-- A delay in milliseconds that may be drawn. -/
inductive CanDelay (settings : NetworkSettings) : Nat → Prop
  | steady : settings.jitter = 0 → CanDelay settings settings.baseLatency
  | jittered {drawn : Nat} :
      settings.jitter ≠ 0 → drawn ≤ 2 * settings.jitter → CanDelay settings (settings.delay drawn)

/-- A fate that may be drawn, by a clock that ticks `resolution` times in a millisecond. -/
inductive CanMeet (settings : NetworkSettings) (resolution : Nat) : PacketFate → Prop
  | lost : CanMeet settings resolution .lost
  | delivered {delay : Nat} :
      settings.CanDelay delay → CanMeet settings resolution (.delivered (resolution * delay))
  | doubled {copyDelay delay : Nat} :
      settings.CanDelay copyDelay → settings.CanDelay delay →
      CanMeet settings resolution (.doubled (resolution * copyDelay) (resolution * delay))

section Drawn

variable [RandomSource] (settings : NetworkSettings) (source : RandomSource.State)

theorem canDelay_drawDelay : settings.CanDelay (settings.drawDelay source).1 := by
  unfold drawDelay
  split
  · next steady => exact .steady steady
  · next jittered => exact .jittered jittered (RandomSource.upTo_le _ source)

theorem canMeet_drawFate : settings.CanMeet 1 (settings.drawFate source).1 := by
  have delivered {delay : Nat} (drawn : settings.CanDelay delay) :
      settings.CanMeet 1 (.delivered delay) := by
    have meets := @CanMeet.delivered settings 1 delay drawn
    rwa [Nat.one_mul] at meets
  have doubled {copyDelay delay : Nat} (drawnCopy : settings.CanDelay copyDelay)
      (drawn : settings.CanDelay delay) : settings.CanMeet 1 (.doubled copyDelay delay) := by
    have meets := @CanMeet.doubled settings 1 copyDelay delay drawnCopy drawn
    rwa [Nat.one_mul, Nat.one_mul] at meets
  unfold drawFate
  dsimp only
  split
  · exact .lost
  · split
    · exact doubled (settings.canDelay_drawDelay _) (settings.canDelay_drawDelay _)
    · exact delivered (settings.canDelay_drawDelay _)

end Drawn

/-- The settings are far from the limit of a word, so that delays are what they seem to be. -/
structure Small (settings : NetworkSettings) : Prop where
  baseLatency : settings.baseLatency < 2 ^ 61
  jitter : settings.jitter < 2 ^ 61

theorem Small.delay_eq
    {settings : NetworkSettings} (small : settings.Small) {drawn : Nat}
    (bounded : drawn ≤ 2 * settings.jitter) :
    settings.delay drawn = settings.baseLatency + drawn - settings.jitter := by
  have := small.baseLatency
  have := small.jitter
  rw [delay, Int.bmod_eq_of_le_mul_two (by rw [wordLimit]; omega) (by rw [wordLimit]; omega)]
  omega

/-- Two delays differ by twice the jitter at most. -/
theorem CanDelay.le_add_spread
    {settings : NetworkSettings} {delay other : Nat} (drawn : settings.CanDelay delay)
    (drawnOther : settings.CanDelay other) (small : settings.Small) :
    other ≤ delay + 2 * settings.jitter := by
  cases drawn with
  | steady without =>
      cases drawnOther with
      | steady _ => omega
      | jittered jitter _ => exact absurd without jitter
  | jittered jitter bounded =>
      cases drawnOther with
      | steady without => exact absurd without jitter
      | jittered _ boundedOther =>
          rw [small.delay_eq bounded, small.delay_eq boundedOther]
          omega

end NetworkSettings

def PacketFate.copies : PacketFate → Nat
  | .lost => 0
  | .delivered _ => 1
  | .doubled _ _ => 2

namespace Network

/-! ## Calls -/

/-- What is asked of a network. -/
inductive Call where
  /-- Send a packet. The clock shows `later` when the packet is sent on its way, and `now` when a
  copy of it is, before. -/
  | send (now later : Nat) (fate : PacketFate) (packet : Bytes)
  | receive (now : Nat)
  | drain

def Call.readings : Call → List Nat
  | .send now later _ _ => [now, later]
  | .receive now => [now]
  | .drain => []

def Call.Drawn (settings : NetworkSettings) (resolution : Nat) : Call → Prop
  | .send _ _ fate _ => settings.CanMeet resolution fate
  | .receive _ => True
  | .drain => True

/-- What a call makes of a network, and the packets that are handed out. -/
def call (network : Network) : Call → Network × List Bytes
  | .send now later fate packet => (network.sendWithin now later fate packet, [])
  | .receive now =>
      match network.receive? now with
      | some (packet, next) => (next, [packet])
      | none => (network, [])
  | .drain => (network.drain.2, network.drain.1)

/-! ## Courses -/

structure Sending where
  packet : Bytes
  fate : PacketFate

/-- A packet on its way and where it comes from. -/
structure Copy where
  flight : PacketInFlight
  /-- The place of the packet among those that were sent. -/
  origin : Nat
  /-- What the clock showed when the packet was sent on its way. -/
  scheduledAt : Nat

structure Delivery where
  flight : PacketInFlight
  /-- What the clock shows, unless the network is drained. -/
  time? : Option Nat

def Call.sendings : Call → List Sending
  | .send _ _ fate packet => [⟨packet, fate⟩]
  | .receive _ => []
  | .drain => []

def Call.copies (origin sequence : Nat) : Call → List Copy
  | .send now later fate packet =>
      match fate with
      | .lost => []
      | .delivered delay => [⟨⟨packet, later + delay, sequence⟩, origin, later⟩]
      | .doubled copyDelay delay =>
          [⟨⟨packet, now + copyDelay, sequence⟩, origin, now⟩,
            ⟨⟨packet, later + delay, sequence + 1⟩, origin, later⟩]
  | .receive _ => []
  | .drain => []

/-- What a call takes from the front of what is on its way. -/
def deliveries (network : Network) : Call → List Delivery
  | .send _ _ _ _ => []
  | .receive now =>
      match network.receive? now with
      | some _ => (network.arrivals.take 1).map fun flight => ⟨flight, some now⟩
      | none => []
  | .drain => network.arrivals.map fun flight => ⟨flight, none⟩

/-- A network and what it has been asked, with all that was sent on its way since it was empty. -/
structure Course where
  network : Network := {}
  /-- The packets that were handed out. -/
  received : List Bytes := []
  sendings : List Sending := []
  copies : List Copy := []
  deliveries : List Delivery := []

namespace Course

def next (course : Course) (call : Call) : Course where
  network := (course.network.call call).1
  received := course.received ++ (course.network.call call).2
  sendings := course.sendings ++ call.sendings
  copies := course.copies ++ call.copies course.sendings.length course.network.nextSequence
  deliveries := course.deliveries ++ course.network.deliveries call

def run (calls : List Call) : Course :=
  calls.foldl next {}

theorem run_append_singleton (calls : List Call) (call : Call) :
    run (calls ++ [call]) = (run calls).next call := by
  simp [run]

end Course

/-! ## The order of arrival -/

theorem exists_insertInFlight (flight : PacketInFlight) (queue : List PacketInFlight) :
    ∃ later earlier, queue = later ++ earlier ∧
      insertInFlight flight queue = later ++ flight :: earlier ∧
      ∀ other ∈ later, flight.dueTime < other.dueTime := by
  induction queue with
  | nil => exact ⟨[], [], rfl, rfl, by simp⟩
  | cons head tail inductionHypothesis =>
      unfold insertInFlight
      split
      · next before =>
          obtain ⟨later, earlier, rfl, inserted, all⟩ := inductionHypothesis
          refine ⟨head :: later, earlier, rfl, by rw [inserted, List.cons_append], ?_⟩
          rw [List.forall_mem_cons]
          exact ⟨before, all⟩
      · exact ⟨[], head :: tail, rfl, rfl, by simp⟩

/-- A packet that is sent on its way arrives before those that are due later. -/
theorem exists_arrivals_schedule (network : Network) (dueTime : Nat) (packet : Bytes) :
    ∃ front behind, network.arrivals = front ++ behind ∧
      (network.schedule dueTime packet).arrivals =
        front ++ ⟨packet, dueTime, network.nextSequence⟩ :: behind ∧
      ∀ other ∈ behind, dueTime < other.dueTime := by
  obtain ⟨later, earlier, split, inserted, all⟩ :=
    exists_insertInFlight ⟨packet, dueTime, network.nextSequence⟩ network.queue
  refine ⟨earlier.reverse, later.reverse, ?_, ?_, ?_⟩
  · rw [arrivals, split, List.reverse_append]
  · rw [arrivals, schedule, inserted, List.reverse_append, List.reverse_cons, List.append_assoc,
      List.singleton_append]
  · intro other member
    exact all other (List.mem_reverse.1 member)

/-- The first copy was sent on its way before the second, by `spread` ticks of the clock at
least. -/
structure Copy.PrecedesBy (spread : Nat) (first second : Copy) : Prop where
  sequence : first.flight.sequence < second.flight.sequence
  scheduledAt : first.scheduledAt + spread ≤ second.scheduledAt

/-- The delay of a copy may have been drawn. -/
def Copy.Delayed (settings : NetworkSettings) (resolution : Nat) (copy : Copy) : Prop :=
  ∃ delay, settings.CanDelay delay ∧
    copy.flight.dueTime = copy.scheduledAt + resolution * delay

/-- How far two delays are apart at most, by a clock that ticks `resolution` times in a
millisecond. -/
def spread (settings : NetworkSettings) (resolution : Nat) : Nat :=
  2 * settings.jitter * resolution

section Delayed

variable {settings : NetworkSettings} {resolution : Nat}

/-- A copy that is due before another one was not sent on its way long after it. -/
theorem Copy.Delayed.not_precedesBy
    {copy other : Copy} (delayed : copy.Delayed settings resolution)
    (delayedOther : other.Delayed settings resolution) (small : settings.Small)
    (before : copy.flight.dueTime < other.flight.dueTime) :
    ¬ other.PrecedesBy (spread settings resolution) copy := by
  obtain ⟨delay, drawn, due⟩ := delayed
  obtain ⟨otherDelay, drawnOther, dueOther⟩ := delayedOther
  have ticks := Nat.mul_le_mul_left resolution (drawn.le_add_spread drawnOther small)
  have parts : resolution * (delay + 2 * settings.jitter) =
      resolution * delay + spread settings resolution := by
    rw [spread]
    ring
  intro precedes
  have := precedes.scheduledAt
  omega

end Delayed

/-! ## What is on its way -/

/-- All copies in the order in which they are handed out, first those that have been, then those
that are on their way. None of them comes before another one that was sent on its way long before
it. -/
structure Lines
    (settings : NetworkSettings) (resolution : Nat) (network : Network) (copies : List Copy)
    (delivered : List PacketInFlight) (line : List Copy) : Prop where
  flights : line.map Copy.flight = delivered ++ network.arrivals
  perm : line.Perm copies
  order : line.Pairwise fun first second =>
    ¬ second.PrecedesBy (spread settings resolution) first

/-- The copies that were sent on their way in a network, of which some have been delivered. -/
structure Traces
    (settings : NetworkSettings) (resolution : Nat) (network : Network) (copies : List Copy)
    (delivered : List PacketInFlight) : Prop where
  sequences : (copies.map fun copy => copy.flight.sequence) = List.range network.nextSequence
  delayed : ∀ copy ∈ copies, copy.Delayed settings resolution
  line : ∃ line, Lines settings resolution network copies delivered line

section Traces

variable {settings : NetworkSettings} {resolution : Nat} {network : Network} {copies : List Copy}
  {delivered : List PacketInFlight}

theorem Traces.sequence_lt
    (traces : Traces settings resolution network copies delivered) {copy : Copy}
    (member : copy ∈ copies) : copy.flight.sequence < network.nextSequence := by
  rw [← List.mem_range, ← traces.sequences]
  exact List.mem_map_of_mem member

/-- One more copy takes its place behind those that are due before it. -/
theorem traces_schedule
    (traces : Traces settings resolution network copies delivered) (small : settings.Small)
    {delay : Nat} (drawn : settings.CanDelay delay) (packet : Bytes) (origin scheduledAt : Nat) :
    Traces settings resolution (network.schedule (scheduledAt + resolution * delay) packet)
      (copies ++ [⟨⟨packet, scheduledAt + resolution * delay, network.nextSequence⟩, origin,
        scheduledAt⟩])
      delivered := by
  let copy : Copy :=
    ⟨⟨packet, scheduledAt + resolution * delay, network.nextSequence⟩, origin, scheduledAt⟩
  have delayed : copy.Delayed settings resolution := ⟨delay, drawn, rfl⟩
  constructor
  case sequences =>
    rw [List.map_append, traces.sequences, schedule, List.range_succ]
    rfl
  case delayed =>
    intro other member
    rcases List.mem_append.1 member with before | last
    · exact traces.delayed other before
    · cases List.mem_singleton.1 last
      exact delayed
  case line =>
    obtain ⟨line, flights, perm, order⟩ := traces.line
    obtain ⟨front, behind, split, inserted, later⟩ :=
      exists_arrivals_schedule network (scheduledAt + resolution * delay) packet
    rw [split, ← List.append_assoc] at flights
    obtain ⟨first, last, rfl, ofFirst, ofLast⟩ := List.map_eq_append_iff.1 flights
    refine ⟨first ++ copy :: last, ?_, ?_, ?_⟩
    · rw [List.map_append, List.map_cons, ofFirst, ofLast, inserted, List.append_assoc]
    · exact List.perm_middle.trans
        ((perm.cons copy).trans (List.perm_append_singleton copy copies).symm)
    · rw [List.pairwise_append] at order ⊢
      obtain ⟨orderFirst, orderLast, across⟩ := order
      -- What was there before is older than the new copy; what comes behind it is due later.
      have inTurn : ∀ other ∈ last, ¬ other.PrecedesBy (spread settings resolution) copy := by
        intro other member
        have known := perm.subset (List.mem_append_right first member)
        refine delayed.not_precedesBy (traces.delayed other known) small (later other.flight ?_)
        rw [← ofLast]
        exact List.mem_map_of_mem member
      refine ⟨orderFirst, List.pairwise_cons.2 ⟨inTurn, orderLast⟩, ?_⟩
      intro other member next ofRest
      rcases List.mem_cons.1 ofRest with rfl | ofOld
      · have older := traces.sequence_lt (perm.subset (List.mem_append_left last member))
        exact fun precedes => absurd precedes.sequence (Nat.lt_asymm older)
      · exact across other member next ofOld

/-- What is handed out is taken from the front of what is on its way. -/
theorem Traces.handOut
    (traces : Traces settings resolution network copies delivered) {after : Network}
    {flights : List PacketInFlight} (sequence : after.nextSequence = network.nextSequence)
    (parts : network.arrivals = flights ++ after.arrivals) :
    Traces settings resolution after copies (delivered ++ flights) := by
  obtain ⟨line, whole, perm, order⟩ := traces.line
  refine ⟨by rw [sequence, traces.sequences], traces.delayed, line, ?_, perm, order⟩
  rw [whole, parts, List.append_assoc]

theorem receive?_eq_some_iff {now : Nat} {packet : Bytes} {next : Network} :
    network.receive? now = some (packet, next) ↔
      ∃ flight rest, network.arrivals = flight :: rest ∧ flight.dueTime ≤ now ∧
        flight.packet = packet ∧
        { network with
          queue := rest.reverse, stats.delivered := network.stats.delivered + 1 } = next := by
  unfold receive?
  cases network.arrivals with
  | nil => simp
  | cons flight rest =>
      dsimp only
      split
      · next due => simp [due]
      · next early => simp [early]

/-- What a call to receive or to drain takes from what is on its way. -/
structure HandsOut (network : Network) (call : Call) : Prop where
  sequence : (network.call call).1.nextSequence = network.nextSequence
  parts : network.arrivals =
    (network.deliveries call).map Delivery.flight ++ (network.call call).1.arrivals
  packets : (network.call call).2 =
    (network.deliveries call).map fun delivery => delivery.flight.packet
  punctual : ∀ delivery ∈ network.deliveries call, ∀ now ∈ delivery.time?,
    delivery.flight.dueTime ≤ now
  stats : (network.call call).1.stats =
    { network.stats with
      delivered := network.stats.delivered + (network.deliveries call).length }

theorem handsOut_receive (network : Network) (now : Nat) : network.HandsOut (.receive now) := by
  cases received : network.receive? now with
  | none => constructor <;> simp [call, deliveries, received]
  | some answer =>
      obtain ⟨packet, next⟩ := answer
      obtain ⟨flight, rest, arrivals, due, rfl, rfl⟩ := receive?_eq_some_iff.1 received
      have taken : network.deliveries (.receive now) = [⟨flight, some now⟩] := by
        simp [deliveries, received, arrivals]
      constructor
      case sequence => simp [call, received]
      case parts =>
        rw [arrivals, taken]
        simp [call, received, Network.arrivals]
      case packets => simp [call, received, taken]
      case punctual =>
        rw [taken]
        simp [due]
      case stats => simp [call, received, taken]

theorem handsOut_drain (network : Network) : network.HandsOut .drain := by
  constructor
  case sequence => rfl
  case parts =>
    have whole : (network.deliveries .drain).map Delivery.flight = network.arrivals := by
      rw [deliveries, List.map_map]
      exact List.map_id _
    rw [whole]
    exact (List.append_nil _).symm
  case packets =>
    rw [deliveries, List.map_map]
    rfl
  case punctual => simp [deliveries]
  case stats => simp [call, drain, deliveries, arrivals]

theorem traces_send
    (traces : Traces settings resolution network copies delivered) (small : settings.Small)
    {fate : PacketFate} (drawn : settings.CanMeet resolution fate) (now later : Nat)
    (packet : Bytes) (origin : Nat) :
    Traces settings resolution (network.sendWithin now later fate packet)
      (copies ++ (Call.send now later fate packet).copies origin network.nextSequence)
      delivered := by
  have counted (stats : NetworkStats) :
      Traces settings resolution { network with stats } copies delivered := by
    obtain ⟨line, lines⟩ := traces.line
    exact ⟨traces.sequences, traces.delayed, line, lines.flights, lines.perm, lines.order⟩
  cases drawn with
  | lost =>
      rw [Call.copies, List.append_nil]
      exact counted _
  | delivered drawn => exact traces_schedule (counted _) small drawn packet origin later
  | doubled drawnCopy drawn =>
      have copied := traces_schedule
        (counted { network.stats with
          sent := network.stats.sent + 1, duplicated := network.stats.duplicated + 1 })
        small drawnCopy packet origin now
      have both := traces_schedule copied small drawn packet origin later
      rwa [List.append_assoc] at both

theorem traces_call
    (traces : Traces settings resolution network copies delivered) (small : settings.Small)
    {call : Call} (drawn : call.Drawn settings resolution) (origin : Nat) :
    Traces settings resolution (network.call call).1
      (copies ++ call.copies origin network.nextSequence)
      (delivered ++ (network.deliveries call).map Delivery.flight) := by
  cases call with
  | send now later fate packet =>
      rw [deliveries, List.map_nil, List.append_nil]
      exact traces_send traces small drawn now later packet origin
  | receive now =>
      have handsOut := handsOut_receive network now
      rw [Call.copies, List.append_nil]
      exact traces.handOut handsOut.sequence handsOut.parts
  | drain =>
      have handsOut := handsOut_drain network
      rw [Call.copies, List.append_nil]
      exact traces.handOut handsOut.sequence handsOut.parts

/-- Whatever is asked of a network, it is known of all copies where they are. -/
theorem Course.traces_run
    (small : settings.Small) {calls : List Call}
    (drawn : ∀ call ∈ calls, call.Drawn settings resolution) :
    Traces settings resolution (run calls).network (run calls).copies
      ((run calls).deliveries.map Delivery.flight) := by
  induction calls using List.reverseRecOn with
  | nil => exact ⟨rfl, by simp [run], [], rfl, .nil, .nil⟩
  | append_singleton calls call inductionHypothesis =>
      rw [List.forall_mem_append, List.forall_mem_singleton] at drawn
      rw [run_append_singleton, next, List.map_append]
      exact traces_call (inductionHypothesis drawn.1) small drawn.2 (run calls).sendings.length

end Traces

/-! ## Sums -/

/-- What a course has sent, copied and handed out. -/
structure Course.Counted (course : Course) : Prop where
  stats : course.network.stats =
    { sent := course.sendings.length
      dropped := course.sendings.countP fun sending => sending.fate.copies = 0
      duplicated := course.sendings.countP fun sending => sending.fate.copies = 2
      delivered := course.deliveries.length }
  received : course.received = course.deliveries.map fun delivery => delivery.flight.packet
  punctual : ∀ delivery ∈ course.deliveries, ∀ now ∈ delivery.time?,
    delivery.flight.dueTime ≤ now
  sent : ∀ copy ∈ course.copies,
    course.sendings[copy.origin]?.map Sending.packet = some copy.flight.packet
  copied : ∀ origin, (course.copies.countP fun copy => copy.origin = origin) =
    (course.sendings[origin]?).elim 0 fun sending => sending.fate.copies
  length : course.copies.length = (course.sendings.map fun sending => sending.fate.copies).sum

section Counted

variable {course : Course}

theorem Course.Counted.handOut
    (counted : course.Counted) {call : Call} (sendings : call.sendings = [])
    (copies : call.copies course.sendings.length course.network.nextSequence = [])
    (handsOut : course.network.HandsOut call) :
    (course.next call).Counted := by
  constructor
  case stats =>
    simp only [next, handsOut.stats, counted.stats, sendings, List.append_nil, List.length_append]
  case received => simp only [next, counted.received, handsOut.packets, List.map_append]
  case punctual =>
    intro delivery member
    rcases List.mem_append.1 member with before | own
    · exact counted.punctual delivery before
    · exact handsOut.punctual delivery own
  case sent =>
    simp only [next, sendings, copies, List.append_nil]
    exact counted.sent
  case copied =>
    simp only [next, sendings, copies, List.append_nil]
    exact counted.copied
  case length =>
    simp only [next, sendings, copies, List.append_nil]
    exact counted.length

theorem of_mem_copies_send
    {now later : Nat} {fate : PacketFate} {packet : Bytes} {origin sequence : Nat} {copy : Copy}
    (member : copy ∈ (Call.send now later fate packet).copies origin sequence) :
    copy.origin = origin ∧ copy.flight.packet = packet := by
  cases fate with
  | lost => cases member
  | delivered delay =>
      cases List.mem_singleton.1 member
      exact ⟨rfl, rfl⟩
  | doubled copyDelay delay =>
      rcases List.mem_cons.1 member with rfl | last
      · exact ⟨rfl, rfl⟩
      · cases List.mem_singleton.1 last
        exact ⟨rfl, rfl⟩

theorem length_copies_send
    (now later : Nat) (fate : PacketFate) (packet : Bytes) (origin sequence : Nat) :
    ((Call.send now later fate packet).copies origin sequence).length = fate.copies := by
  cases fate <;> rfl

theorem countP_copies_send
    (now later : Nat) (fate : PacketFate) (packet : Bytes) (origin sequence other : Nat) :
    (((Call.send now later fate packet).copies origin sequence).countP fun copy =>
      copy.origin = other) = if origin = other then fate.copies else 0 := by
  split
  · next same =>
      rw [← length_copies_send now later fate packet origin sequence, List.countP_eq_length]
      intro copy member
      rw [(of_mem_copies_send member).1, same]
      exact decide_eq_true rfl
  · next different =>
      rw [List.countP_eq_zero]
      intro copy member
      rw [(of_mem_copies_send member).1, decide_eq_true_eq]
      exact different

theorem Course.Counted.send
    (counted : course.Counted) (now later : Nat) (fate : PacketFate) (packet : Bytes) :
    (course.next (.send now later fate packet)).Counted := by
  have known {origin : Nat} (before : origin < course.sendings.length) :
      (course.sendings ++ [⟨packet, fate⟩])[origin]? = course.sendings[origin]? :=
    List.getElem?_append_left before
  have own : (course.sendings ++ [⟨packet, fate⟩])[course.sendings.length]? =
      some ⟨packet, fate⟩ :=
    List.getElem?_concat_length
  constructor
  case stats =>
    cases fate <;> simp [next, call, sendWithin, schedule, Network.deliveries, Call.sendings,
      PacketFate.copies, counted.stats]
  case received => simp only [next, call, Network.deliveries, List.append_nil, counted.received]
  case punctual =>
    simp only [next, Network.deliveries, List.append_nil]
    exact counted.punctual
  case sent =>
    intro copy member
    rcases List.mem_append.1 member with before | last
    · have found := counted.sent copy before
      have inside : copy.origin < course.sendings.length := by
        by_contra outside
        rw [List.getElem?_eq_none (Nat.not_lt.1 outside)] at found
        cases found
      rw [next, Call.sendings, known inside, found]
    · obtain ⟨origin, bytes⟩ := of_mem_copies_send last
      rw [next, Call.sendings, origin, own, bytes]
      rfl
  case copied =>
    intro origin
    rw [next, List.countP_append, counted.copied, countP_copies_send, Call.sendings]
    split
    · next same =>
        rw [← same, own, List.getElem?_eq_none le_rfl]
        exact Nat.zero_add _
    · next different =>
        rw [Nat.add_zero]
        rcases Nat.lt_or_gt_of_ne different with after | before
        · rw [List.getElem?_eq_none after.le, List.getElem?_eq_none]
          rw [List.length_append]
          exact after
        · rw [known before]
  case length =>
    rw [next, Call.sendings, List.length_append, counted.length, length_copies_send,
      List.map_append, List.sum_append]
    rfl

theorem Course.counted_run (calls : List Call) : (run calls).Counted := by
  induction calls using List.reverseRecOn with
  | nil => exact ⟨rfl, rfl, by simp [run], by simp [run], by simp [run], rfl⟩
  | append_singleton calls call inductionHypothesis =>
      rw [run_append_singleton]
      cases call with
      | send now later fate packet => exact inductionHypothesis.send now later fate packet
      | receive now => exact inductionHypothesis.handOut rfl rfl (handsOut_receive _ now)
      | drain => exact inductionHypothesis.handOut rfl rfl (handsOut_drain _)

theorem sum_copies (sendings : List Sending) :
    (sendings.map fun sending => sending.fate.copies).sum +
        sendings.countP (fun sending => sending.fate.copies = 0) =
      sendings.length + sendings.countP fun sending => sending.fate.copies = 2 := by
  induction sendings with
  | nil => rfl
  | cons sending rest inductionHypothesis =>
      have own (fate : PacketFate) :
          fate.copies + (if decide (fate.copies = 0) = true then 1 else 0) =
            1 + if decide (fate.copies = 2) = true then 1 else 0 := by
        cases fate <;> rfl
      have first := own sending.fate
      rw [List.map_cons, List.sum_cons, List.length_cons, List.countP_cons, List.countP_cons]
      omega

end Counted

/-! ## First in, first out -/

section Fifo

/-- Copies are sent on their way as the clock goes on. -/
theorem Course.scheduledAt_sublist (calls : List Call) :
    ((run calls).copies.map Copy.scheduledAt).Sublist (calls.flatMap Call.readings) := by
  induction calls using List.reverseRecOn with
  | nil => exact .slnil
  | append_singleton calls call inductionHypothesis =>
      rw [run_append_singleton, next, List.map_append, List.flatMap_append, List.flatMap_singleton]
      refine inductionHypothesis.append ?_
      cases call with
      | send now later fate packet =>
          cases fate with
          | lost => exact List.nil_sublist _
          | delivered delay => exact (List.Sublist.refl [later]).cons now
          | doubled copyDelay delay => exact .refl _
      | receive now => exact List.nil_sublist _
      | drain => exact .slnil

/-- Without any spread, copies are handed out in the order in which they were sent on their way. -/
theorem eq_of_not_precedesBy_zero
    {copies line : List Copy} {count : Nat}
    (sequences : (copies.map fun copy => copy.flight.sequence) = List.range count)
    (clock : (copies.map Copy.scheduledAt).Pairwise (· ≤ ·)) (perm : line.Perm copies)
    (order : line.Pairwise fun first second => ¬ second.PrecedesBy 0 first) :
    line = copies := by
  have ascending : copies.Pairwise fun first second =>
      first.flight.sequence < second.flight.sequence := by
    have places := @List.pairwise_lt_range count
    rwa [← sequences, List.pairwise_map] at places
  rw [List.pairwise_map] at clock
  have monotone : ∀ ⦃first⦄, first ∈ copies → ∀ ⦃second⦄, second ∈ copies →
      second.flight.sequence ≤ first.flight.sequence →
      second.scheduledAt ≤ first.scheduledAt := by
    apply List.Pairwise.forall_of_forall_of_flip
    · exact fun _ _ _ => le_rfl
    · exact ascending.imp fun before behind => absurd before (Nat.not_lt.2 behind)
    · refine clock.imp ?_
      intro first second ordered _
      exact ordered
  have distinct : line.Pairwise fun first second =>
      first.flight.sequence ≠ second.flight.sequence := by
    have places : (copies.map fun copy => copy.flight.sequence).Nodup := by
      rw [sequences]
      exact List.nodup_range
    rwa [← (perm.map _).nodup_iff, List.Nodup, List.pairwise_map] at places
  have sorted : line.Pairwise fun first second =>
      first.flight.sequence < second.flight.sequence := by
    refine (order.and distinct).imp_of_mem ?_
    intro first second ofFirst ofSecond inTurn
    by_contra behind
    have earlier := Nat.lt_of_le_of_ne (Nat.not_lt.1 behind) inTurn.2.symm
    exact inTurn.1 ⟨earlier, monotone (perm.subset ofFirst) (perm.subset ofSecond) earlier.le⟩
  refine List.Perm.eq_of_pairwise ?_ sorted ascending perm
  intro first second _ _ before behind
  exact absurd before (Nat.lt_asymm behind)

end Fifo

/-! ## Whole courses -/

/-- What holds of every course. -/
structure Course.Conserves
    (settings : NetworkSettings) (resolution : Nat) (course : Course) : Prop where
  balance : course.network.stats.sent + course.network.stats.duplicated =
    course.network.stats.dropped + course.network.stats.delivered + course.network.inFlight
  counted : course.Counted
  /-- Every copy was handed out or is on its way, in an order that chance alone may change, and
  without jitter not at all. -/
  line : ∃ delivered waiting : List Copy,
    delivered.map Copy.flight = course.deliveries.map Delivery.flight ∧
    waiting.map Copy.flight = course.network.arrivals ∧
    (delivered ++ waiting).Perm course.copies ∧
    (∀ origin sending, course.sendings[origin]? = some sending →
      (delivered.countP fun copy => copy.origin = origin) ≤ sending.fate.copies) ∧
    ((delivered ++ waiting).Pairwise fun first second =>
      ¬ second.PrecedesBy (spread settings resolution) first) ∧
    (settings.jitter = 0 → delivered ++ waiting = course.copies)

/-- Whatever is asked of a network, whatever may be drawn and however the clock goes on, every
packet is accounted for: what is not dropped is on its way or was handed out, each copy once, not
before it was due, and not before another one that was sent on its way so long before that no two
delays are that far apart. What is drawn of any source is among what may be drawn. -/
theorem conserves_run [RandomSource] :
    (∀ (settings : NetworkSettings) (source : RandomSource.State),
      settings.CanMeet 1 (settings.drawFate source).1) ∧
    ∀ (settings : NetworkSettings) (resolution : Nat) (calls : List Call), settings.Small →
      (∀ call ∈ calls, call.Drawn settings resolution) →
      (calls.flatMap Call.readings).Pairwise (· ≤ ·) →
      (Course.run calls).Conserves settings resolution := by
  refine ⟨fun settings => settings.canMeet_drawFate, ?_⟩
  intro settings resolution calls small drawn clock
  have counted := Course.counted_run calls
  have traces := Course.traces_run small drawn
  obtain ⟨line, flights, perm, order⟩ := traces.line
  obtain ⟨delivered, waiting, rfl, ofDelivered, ofWaiting⟩ := List.map_eq_append_iff.1 flights
  refine ⟨?_, counted, delivered, waiting, ofDelivered, ofWaiting, perm, ?_, order, ?_⟩
  · have total := perm.length_eq
    have deliveries := congrArg List.length ofDelivered
    have arrivals := congrArg List.length ofWaiting
    have sums := sum_copies (Course.run calls).sendings
    rw [List.length_append, counted.length] at total
    rw [List.length_map, List.length_map] at deliveries
    rw [List.length_map, Network.arrivals, List.length_reverse] at arrivals
    rw [counted.stats, inFlight]
    dsimp only
    omega
  · intro origin sending found
    have copied := counted.copied origin
    rw [found, ← perm.countP_eq, List.countP_append] at copied
    exact Nat.le.intro copied
  · intro steady
    have sorted := clock.sublist (Course.scheduledAt_sublist calls)
    rw [spread, steady, Nat.mul_zero, Nat.zero_mul] at order
    exact eq_of_not_precedesBy_zero traces.sequences sorted perm order

/-- A packet whose copy arrives with the packet sent after it, and that is still on its way itself
when the network is drained. -/
theorem conserves_run_of_doubled :
    let settings : NetworkSettings := { baseLatency := 5, jitter := 2 }
    let calls : List Call :=
      [.send 0 0 (.doubled 3 7) [1], .send 1 1 (.delivered 3) [2], .receive 3, .receive 4, .drain]
    settings.Small ∧ (∀ call ∈ calls, call.Drawn settings 1) ∧
      (calls.flatMap Call.readings).Pairwise (· ≤ ·) ∧
      (Course.run calls).Conserves settings 1 ∧ (Course.run calls).received = [[1], [2], [1]] := by
  intro settings calls
  have small : settings.Small := ⟨by decide, by decide⟩
  have shortest : settings.CanDelay (settings.delay 0) := .jittered (by decide) (by decide)
  have longest : settings.CanDelay (settings.delay 4) := .jittered (by decide) (by decide)
  rw [small.delay_eq (by decide)] at shortest longest
  have doubled : settings.CanMeet 1 (.doubled 3 7) :=
    @NetworkSettings.CanMeet.doubled settings 1 3 7 shortest longest
  have delivered : settings.CanMeet 1 (.delivered 3) :=
    @NetworkSettings.CanMeet.delivered settings 1 3 shortest
  have drawn : ∀ call ∈ calls, call.Drawn settings 1 := by
    simp only [calls, List.forall_mem_cons, List.not_mem_nil, false_imp_iff, implies_true, and_true]
    exact ⟨doubled, delivered, trivial, trivial, trivial⟩
  have clock : (calls.flatMap Call.readings).Pairwise (· ≤ ·) := by
    decide
  exact ⟨small, drawn, clock, conserves_run.2 settings 1 calls small drawn clock, by decide⟩

end Network
end Spead
