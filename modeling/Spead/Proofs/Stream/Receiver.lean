import Spead.Proofs.Reassembler.Ending
import Spead.Proofs.Reassembler.ExactlyOnce
import Spead.Stream.Receiver

/-!
What a receive stream hands to the application.

The turns of the worker, the reads of the application and a request to stop may alternate in any
way. What the application has read, what is in the ring and what waits for room in it are always,
taken together, the results of one reassembler that is fed with the packets read so far.
-/

namespace Spead

namespace Reading

def packet? : Reading → Option Bytes
  | .packet bytes => some bytes
  | _ => none

def isLast : Reading → Bool
  | .closed => true
  | .failed _ => true
  | _ => false

def failure? : Reading → Option ReceiveResult
  | .failed cause => some (.error (cause : Error))
  | _ => none

end Reading

theorem Reassembler.call_receive (reassembler : Reassembler) (bytes : Bytes) :
    reassembler.call (.receive bytes) =
      ((reassembler.insertBytes bytes).1, (reassembler.insertBytes bytes).2.toOption.getD []) := by
  simp only [Reassembler.call]
  rcases reassembler.insertBytes bytes with ⟨next, _ | events⟩
  · rfl
  · rfl

namespace ReceiveStream

/-! ## What is to be delivered -/

/-- A new reassembler that has been fed with the packets among some readings, and what it has
told. -/
def fedBy (settings : ReassemblerSettings) (readings : List Reading) : Reassembler.Step :=
  let (after, answers) :=
    (Reassembler.new settings).receiveAll (readings.filterMap Reading.packet?)
  (after, answers.flatMap fun answer => answer.toOption.getD [])

/-- Whether a reassembler is stopped: after the last reading, or on request. -/
def isOver (readings : List Reading) (halted : Bool) : Bool :=
  halted || readings.any Reading.isLast

/-- The reassembler that has been fed, and then stopped if it is to be. -/
def settled (settings : ReassemblerSettings) (readings : List Reading) (halted : Bool) :
    Reassembler.Step :=
  let (after, events) := fedBy settings readings
  if isOver readings halted then (after.stop.1, events ++ after.stop.2) else (after, events)

/-- All results for the application: those of the reassembler, and then the failure of the source
if there was one. -/
def delivered (settings : ReassemblerSettings) (readings : List Reading) (halted : Bool) :
    List ReceiveResult :=
  (settled settings readings halted).2.filterMap ReassemblyEvent.result? ++
    readings.filterMap Reading.failure?

section Settled

variable (settings : ReassemblerSettings) (readings : List Reading) {halted : Bool}

theorem fedBy_packet (bytes : Bytes) :
    fedBy settings (readings ++ [.packet bytes]) =
      (((fedBy settings readings).1.call (.receive bytes)).1,
        (fedBy settings readings).2 ++
          ((fedBy settings readings).1.call (.receive bytes)).2) := by
  simp only [fedBy, List.filterMap_append, List.filterMap_cons, List.filterMap_nil,
    Reading.packet?, Reassembler.receiveAll_append_singleton, List.flatMap_append,
    List.flatMap_cons, List.flatMap_nil, List.append_nil, Reassembler.call_receive]

theorem fedBy_of_not_packet {reading : Reading} (other : reading.packet? = none) :
    fedBy settings (readings ++ [reading]) = fedBy settings readings := by
  simp only [fedBy, List.filterMap_append, List.filterMap_cons, other, List.filterMap_nil,
    List.append_nil]

theorem coherent_fedBy : (fedBy settings readings).1.Coherent := by
  induction readings using List.reverseRecOn with
  | nil => exact Reassembler.coherent_new settings
  | append_singleton readings reading inductionHypothesis =>
      cases reading with
      | packet bytes =>
          rw [fedBy_packet]
          exact inductionHypothesis.answer _
      | pending => rwa [fedBy_of_not_packet settings readings rfl]
      | closed => rwa [fedBy_of_not_packet settings readings rfl]
      | failed cause => rwa [fedBy_of_not_packet settings readings rfl]

variable {settings readings}

theorem settled_of_isOver (ending : isOver readings halted = true) :
    settled settings readings halted =
      ((fedBy settings readings).1.stop.1,
        (fedBy settings readings).2 ++ (fedBy settings readings).1.stop.2) := by
  simp only [settled, ending, if_true]

theorem settled_of_not_isOver (goesOn : isOver readings halted = false) :
    settled settings readings halted = fedBy settings readings := by
  simp only [settled, goesOn, Bool.false_eq_true, if_false]

variable (running : (settled settings readings halted).1.stopped = false)

include running

/-- A reassembler that has been stopped does not run. -/
theorem not_isOver_of_running : isOver readings halted = false := by
  by_contra ending
  rw [Bool.not_eq_false] at ending
  rw [settled_of_isOver ending, Reassembler.stopped_stop] at running
  cases running

theorem settled_of_running : settled settings readings halted = fedBy settings readings :=
  settled_of_not_isOver (not_isOver_of_running running)

theorem failures_of_running : readings.filterMap Reading.failure? = [] := by
  have goesOn := not_isOver_of_running running
  rw [isOver, Bool.or_eq_false_iff, List.any_eq_false] at goesOn
  rw [List.filterMap_eq_nil_iff]
  intro reading member
  have more := goesOn.2 reading member
  cases reading with
  | packet bytes => rfl
  | pending => rfl
  | closed => exact absurd rfl more
  | failed cause => exact absurd rfl more

theorem settled_packet (bytes : Bytes) :
    settled settings (readings ++ [.packet bytes]) halted =
      (((settled settings readings halted).1.call (.receive bytes)).1,
        (settled settings readings halted).2 ++
          ((settled settings readings halted).1.call (.receive bytes)).2) := by
  have goesOn := not_isOver_of_running running
  have still : isOver (readings ++ [.packet bytes]) halted = false := by
    simpa [isOver, Reading.isLast] using goesOn
  rw [settled_of_not_isOver still, settled_of_not_isOver goesOn, fedBy_packet]

theorem settled_pending :
    settled settings (readings ++ [.pending]) halted = settled settings readings halted := by
  have goesOn := not_isOver_of_running running
  have still : isOver (readings ++ [.pending]) halted = false := by
    simpa [isOver, Reading.isLast] using goesOn
  rw [settled_of_not_isOver still, settled_of_not_isOver goesOn,
    fedBy_of_not_packet settings readings rfl]

theorem settled_last {reading : Reading} (last : reading.isLast = true) :
    settled settings (readings ++ [reading]) halted =
      ((settled settings readings halted).1.stop.1,
        (settled settings readings halted).2 ++ (settled settings readings halted).1.stop.2) := by
  have ending : isOver (readings ++ [reading]) halted = true := by simp [isOver, last]
  have other : reading.packet? = none := by
    cases reading with
    | packet bytes => cases last
    | pending => rfl
    | closed => rfl
    | failed cause => rfl
  rw [settled_of_isOver ending, settled_of_running running,
    fedBy_of_not_packet settings readings other]

theorem settled_halted :
    settled settings readings true =
      ((settled settings readings halted).1.stop.1,
        (settled settings readings halted).2 ++ (settled settings readings halted).1.stop.2) := by
  rw [settled_of_isOver rfl, settled_of_running running]

end Settled

/-- A request to stop changes nothing any more once the stream has ended. -/
theorem settled_halted_of_stopped
    {settings : ReassemblerSettings} {readings : List Reading} {halted : Bool}
    (stopped : (settled settings readings halted).1.stopped = true) :
    settled settings readings true = settled settings readings halted := by
  cases ending : isOver readings halted with
  | true => rw [settled_of_isOver ending, settled_of_isOver rfl]
  | false =>
      rw [settled_of_not_isOver ending] at stopped
      rw [settled_of_not_isOver ending, settled_of_isOver rfl, Reassembler.stop, if_pos stopped,
        List.append_nil]

/-! ## What is read -/

/-- Readings that are heard one after the other, each while nothing waits. -/
inductive Hears : ReceiveStream → List Reading → ReceiveStream → Prop where
  | nil (stream : ReceiveStream) : Hears stream [] stream
  | cons {stream after : ReceiveStream} {reading : Reading} {rest : List Reading}
      {readings : List Reading}
      (script : stream.script = reading :: rest)
      (running : stream.ended = false)
      (idle : stream.backlog = [])
      (later : Hears (({ stream with script := rest }).hear reading) readings after) :
      Hears stream (reading :: readings) after

theorem Hears.script_eq
    {stream after : ReceiveStream} {readings : List Reading} (hears : stream.Hears readings after) :
    stream.script = readings ++ after.script := by
  induction hears with
  | nil => rfl
  | cons script _ _ _ inductionHypothesis =>
      rw [script_hear] at inductionHypothesis
      rw [script, List.cons_append, ← inductionHypothesis]

theorem Hears.ringCapacity_eq
    {stream after : ReceiveStream} {readings : List Reading} (hears : stream.Hears readings after) :
    after.ringCapacity = stream.ringCapacity := by
  induction hears with
  | nil => rfl
  | cons _ _ _ _ inductionHypothesis => rw [inductionHypothesis, ringCapacity_hear]

theorem hears_readBatch (budget : Nat) {stream : ReceiveStream}
    (running : stream.ended = false) (idle : stream.backlog = []) :
    ∃ readings, stream.Hears readings (stream.readBatch budget) := by
  induction budget generalizing stream with
  | zero => exact ⟨[], .nil stream⟩
  | succ budget inductionHypothesis =>
      unfold readBatch
      split
      · exact ⟨[], .nil stream⟩
      · next bytes rest script =>
          dsimp only
          split
          · exact ⟨_, .cons script running idle (.nil _)⟩
          · next goesOn =>
              rw [Bool.not_eq_true, Bool.or_eq_false_iff, Bool.not_eq_false',
                List.isEmpty_iff] at goesOn
              obtain ⟨readings, later⟩ := inductionHypothesis goesOn.1 goesOn.2
              exact ⟨_, .cons script running idle later⟩
      · next reading rest _ script => exact ⟨_, .cons script running idle (.nil _)⟩

/-- Before it moves results, a turn ends the stream on request, or reads. -/
theorem advance_cases (stream : ReceiveStream) :
    (stream.cancelled = true ∧ stream.ended = false ∧ stream.advance = stream.finish) ∨
    (stream.cancelled = true ∧ stream.ended = true ∧ stream.advance = stream) ∨
    (stream.cancelled = false ∧ ∃ readings, stream.Hears readings stream.advance) := by
  cases asked : stream.cancelled with
  | true =>
      cases ended : stream.ended with
      | false => exact Or.inl ⟨rfl, rfl, by simp [advance, asked, ended, ended_finish]⟩
      | true => exact Or.inr (Or.inl ⟨rfl, rfl, by simp [advance, ended]⟩)
  | false =>
      refine Or.inr (Or.inr ⟨rfl, ?_⟩)
      simp only [advance, asked, Bool.false_and, Bool.false_eq_true, if_false]
      split
      · next ready =>
          rw [Bool.and_eq_true, Bool.not_eq_true', List.isEmpty_iff] at ready
          exact hears_readBatch _ ready.1 ready.2
      · exact ⟨[], .nil stream⟩

@[simp] theorem ringCapacity_advance (stream : ReceiveStream) :
    stream.advance.ringCapacity = stream.ringCapacity := by
  rcases stream.advance_cases with ⟨_, _, same⟩ | ⟨_, _, same⟩ | ⟨_, _, hears⟩
  · rw [same]
    rfl
  · rw [same]
  · exact hears.ringCapacity_eq

/-- What a turn takes from the source, it hears piece by piece while nothing waits. -/
theorem exists_hears_turn (stream : ReceiveStream) :
    ∃ readings heard, stream.Hears readings heard ∧ heard.script = stream.turn.script := by
  unfold turn
  split
  · exact ⟨[], stream, .nil stream, rfl⟩
  · rcases stream.advance_cases with ⟨_, _, same⟩ | ⟨_, _, same⟩ | ⟨_, readings, hears⟩
    · exact ⟨[], stream, .nil stream, by rw [same]; rfl⟩
    · exact ⟨[], stream, .nil stream, by rw [same]; rfl⟩
    · exact ⟨readings, stream.advance, hears, rfl⟩

/-! ## Nothing is lost, doubled or moved -/

/-- The application has read `taken`, and the stream owes it the rest of what the readings give. -/
structure Owes
    (settings : ReassemblerSettings) (readings : List Reading) (halted : Bool)
    (taken : List ReceiveResult) (stream : ReceiveStream) : Prop where
  reassembler : stream.reassembler = (settled settings readings halted).1
  ended : stream.ended = stream.reassembler.stopped
  delivered : taken ++ stream.ring ++ stream.backlog = delivered settings readings halted

section Owes

variable {settings : ReassemblerSettings} {readings : List Reading} {halted : Bool}
  {taken : List ReceiveResult} {stream : ReceiveStream}
  (owes : Owes settings readings halted taken stream)

include owes

theorem Owes.running (live : stream.ended = false) :
    (settled settings readings halted).1.stopped = false := by
  rw [← owes.reassembler, ← owes.ended]
  exact live

/-- What the reassembler tells, and a failure after it, are results that wait. -/
theorem Owes.tell
    (live : stream.ended = false) {after : List Reading} {halts : Bool}
    {next : Reassembler} {events : List ReassemblyEvent}
    (told : settled settings after halts = (next, (settled settings readings halted).2 ++ events))
    {failures : List ReceiveResult} (failed : after.filterMap Reading.failure? = failures)
    {ended : Bool} (ends : ended = next.stopped) :
    Owes settings after halts taken
      { stream with
        reassembler := next
        ended
        backlog := stream.backlog ++ events.filterMap ReassemblyEvent.result? ++ failures } := by
  have given := owes.delivered
  rw [ReceiveStream.delivered, failures_of_running (owes.running live), List.append_nil] at given
  constructor
  case reassembler => rw [told]
  case ended => exact ends
  case delivered =>
    rw [ReceiveStream.delivered, told, failed]
    simp only [List.filterMap_append, ← given, List.append_assoc]

/-- A reassembler that is stopped tells of what is still incomplete. -/
theorem Owes.finish
    (live : stream.ended = false) {after : List Reading} {halts : Bool}
    (told : settled settings after halts =
      ((settled settings readings halted).1.stop.1,
        (settled settings readings halted).2 ++ (settled settings readings halted).1.stop.2))
    {failures : List ReceiveResult} (failed : after.filterMap Reading.failure? = failures) :
    Owes settings after halts taken
      { stream.finish with backlog := stream.finish.backlog ++ failures } := by
  have finished := owes.tell live told failed (Reassembler.stopped_stop _).symm
  rw [← owes.reassembler] at finished
  exact finished

/-- A turn that notices the request to stop ends the stream, unless it has ended by itself. -/
theorem Owes.halt :
    Owes settings readings true taken (if stream.ended then stream else stream.finish) := by
  cases live : stream.ended with
  | true =>
      have stopped : (settled settings readings halted).1.stopped = true := by
        rw [← owes.reassembler, ← owes.ended]
        exact live
      have same := settled_halted_of_stopped stopped
      rw [if_pos rfl]
      constructor
      case reassembler => rw [same, owes.reassembler]
      case ended => exact owes.ended
      case delivered => rw [owes.delivered, ReceiveStream.delivered, ReceiveStream.delivered, same]
  | false =>
      have running := owes.running live
      have finished := owes.finish live (settled_halted running) (failures_of_running running)
      rw [List.append_nil] at finished
      exact finished

theorem Owes.hear (live : stream.ended = false) (reading : Reading) :
    Owes settings (readings ++ [reading]) halted taken (stream.hear reading) := by
  have running := owes.running live
  have failures :
      (readings ++ [reading]).filterMap Reading.failure? = reading.failure?.toList := by
    rw [List.filterMap_append, failures_of_running running, List.nil_append]
    cases failure : reading.failure? <;> simp [failure]
  cases reading with
  | packet bytes =>
      have coherent : (settled settings readings halted).1.Coherent := by
        rw [settled_of_running running]
        exact coherent_fedBy settings readings
      have told := owes.tell live (settled_packet running bytes) failures
        (Reassembler.stopped_call_eq coherent (.receive bytes)).symm
      rw [← owes.reassembler, ← owes.ended, Reassembler.call_receive] at told
      simpa [ReceiveStream.hear, queue, Reading.failure?] using told
  | pending =>
      have nothing :
          settled settings (readings ++ [.pending]) halted =
            (stream.reassembler, (settled settings readings halted).2 ++ []) := by
        rw [settled_pending running, owes.reassembler, List.append_nil]
      have told := owes.tell live nothing failures owes.ended
      simpa [ReceiveStream.hear, Reading.failure?] using told
  | closed =>
      have finished := owes.finish live (settled_last running rfl) failures
      simp only [Reading.failure?, Option.toList_none, List.append_nil] at finished
      exact finished
  | failed cause => exact owes.finish live (settled_last running rfl) failures

theorem Owes.hears
    {more : List Reading} {after : ReceiveStream} (hears : stream.Hears more after) :
    Owes settings (readings ++ more) halted taken after := by
  induction hears generalizing readings with
  | nil => rwa [List.append_nil]
  | @cons stream after reading rest more script running idle later inductionHypothesis =>
      have fewer : Owes settings readings halted taken { stream with script := rest } :=
        ⟨owes.reassembler, owes.ended, owes.delivered⟩
      have heard := inductionHypothesis (fewer.hear running reading)
      rwa [List.append_assoc] at heard

/-- What is owed before a turn moves results: more if it reads, and all that is left if it ends the
stream. -/
theorem Owes.advance :
    ∃ more, stream.script = more ++ stream.advance.script ∧
      Owes settings (readings ++ more) (halted || stream.cancelled) taken stream.advance := by
  rcases stream.advance_cases with ⟨asked, live, same⟩ | ⟨asked, ended, same⟩ |
    ⟨unasked, more, hears⟩
  · have halted := owes.halt
    rw [live, if_neg (by decide)] at halted
    rw [asked, Bool.or_true, same]
    exact ⟨[], rfl, by rwa [List.append_nil]⟩
  · have halted := owes.halt
    rw [ended, if_pos rfl] at halted
    rw [asked, Bool.or_true, same]
    exact ⟨[], rfl, by rwa [List.append_nil]⟩
  · rw [unasked, Bool.or_false]
    exact ⟨more, hears.script_eq, owes.hears hears⟩

/-- Results that move into the ring stay in order. -/
theorem Owes.flush : Owes settings readings halted taken stream.flush where
  reassembler := owes.reassembler
  ended := owes.ended
  delivered := by
    rw [← owes.delivered]
    simp only [ReceiveStream.flush, List.append_assoc, List.take_append_drop]

end Owes

/-- Results wait after a turn only if the ring is full. -/
theorem length_ring_turn_eq (stream : ReceiveStream)
    (bounded : stream.ring.length ≤ stream.ringCapacity)
    (drained : stream.closed = true → stream.backlog = [])
    (waiting : stream.turn.backlog ≠ []) : stream.turn.ring.length = stream.ringCapacity := by
  unfold turn at waiting ⊢
  split at waiting
  · next closed => exact absurd (drained closed) waiting
  · next goesOn =>
      have more := List.length_pos_iff.2 waiting
      rw [if_neg goesOn]
      simp only [flush, List.length_drop, List.length_append, List.length_take, ring_advance,
        ringCapacity_advance] at more ⊢
      omega

theorem length_ring_flush_le (stream : ReceiveStream)
    (bounded : stream.ring.length ≤ stream.ringCapacity) :
    stream.flush.ring.length ≤ stream.ringCapacity := by
  simp only [flush, List.length_append, List.length_take]
  omega

end ReceiveStream

/-! ## Schedules -/

/-- What may happen to a stream at any time. -/
inductive Occurrence where
  | turn
  /-- The application reads a result if there is one. -/
  | read
  | cancel
  deriving DecidableEq, Repr

/-- A stream with what has been seen of it. -/
structure Watched where
  stream : ReceiveStream
  /-- What the application has read, the oldest first. -/
  taken : List ReceiveResult := []
  /-- Whether a turn has noticed the request to stop. -/
  halted : Bool := false

namespace Watched

def step (watched : Watched) : Occurrence → Watched
  | .turn =>
      { watched with
        stream := watched.stream.turn
        halted := watched.halted || (watched.stream.cancelled && !watched.stream.closed) }
  | .read =>
      match watched.stream.read? with
      | none => watched
      | some (result, stream) => { watched with stream, taken := watched.taken ++ [result] }
  | .cancel => { watched with stream := watched.stream.cancel }

def run (watched : Watched) (schedule : List Occurrence) : Watched :=
  schedule.foldl step watched

/-- The results of the readings so far have been read by the application, are in the ring, which
holds no more than it can, or wait. Nothing waits any more when the worker has ended. -/
structure Delivers
    (settings : ReassemblerSettings) (capacity : Nat) (script : List Reading)
    (watched : Watched) : Prop where
  owes : ∃ readings, script = readings ++ watched.stream.script ∧
    ReceiveStream.Owes settings readings watched.halted watched.taken watched.stream
  capacity_eq : watched.stream.ringCapacity = capacity
  ring_le : watched.stream.ring.length ≤ capacity
  drained : watched.stream.closed = true →
    watched.stream.ended = true ∧ watched.stream.backlog = []

section Delivers

variable {settings : ReassemblerSettings} {capacity : Nat} {script : List Reading}
  {watched : Watched}

theorem Delivers.turn (delivers : watched.Delivers settings capacity script) :
    (watched.step .turn).Delivers settings capacity script := by
  obtain ⟨readings, consumed, owes⟩ := delivers.owes
  cases closed : watched.stream.closed with
  | true =>
      have same : watched.step .turn = watched := by
        simp [step, ReceiveStream.turn, closed]
      rw [same]
      exact delivers
  | false =>
      have turned :
          watched.step .turn =
            ⟨{ watched.stream.advance.flush with
                closed := watched.stream.advance.flush.ended &&
                  watched.stream.advance.flush.backlog.isEmpty },
              watched.taken, watched.halted || watched.stream.cancelled⟩ := by
        simp [step, ReceiveStream.turn, closed]
      obtain ⟨more, script, advanced⟩ := owes.advance
      have flushed := advanced.flush
      have bounded := watched.stream.advance.length_ring_flush_le (by
        rw [ReceiveStream.ring_advance, ReceiveStream.ringCapacity_advance, delivers.capacity_eq]
        exact delivers.ring_le)
      rw [ReceiveStream.ringCapacity_advance, delivers.capacity_eq] at bounded
      rw [turned]
      constructor
      case owes =>
        refine ⟨readings ++ more, ?_, flushed.reassembler, flushed.ended, flushed.delivered⟩
        rw [consumed, script, List.append_assoc]
        rfl
      case capacity_eq =>
        exact watched.stream.ringCapacity_advance.trans delivers.capacity_eq
      case ring_le => exact bounded
      case drained =>
        intro ending
        simpa using ending

theorem Delivers.read (delivers : watched.Delivers settings capacity script) :
    (watched.step .read).Delivers settings capacity script := by
  obtain ⟨readings, consumed, owes⟩ := delivers.owes
  cases ring : watched.stream.ring with
  | nil =>
      have same : watched.step .read = watched := by
        simp [step, ReceiveStream.read?, ring]
      rw [same]
      exact delivers
  | cons result rest =>
      have next :
          watched.step .read =
            { watched with
              stream := { watched.stream with ring := rest }
              taken := watched.taken ++ [result] } := by
        simp [step, ReceiveStream.read?, ring]
      have bounded := delivers.ring_le
      rw [ring, List.length_cons] at bounded
      rw [next]
      refine ⟨⟨readings, consumed, owes.reassembler, owes.ended, ?_⟩, delivers.capacity_eq, ?_,
        delivers.drained⟩
      · rw [← owes.delivered, ring]
        simp
      · dsimp only
        omega

theorem Delivers.cancel (delivers : watched.Delivers settings capacity script) :
    (watched.step .cancel).Delivers settings capacity script := by
  obtain ⟨readings, consumed, owes⟩ := delivers.owes
  exact ⟨⟨readings, consumed, owes.reassembler, owes.ended, owes.delivered⟩,
    delivers.capacity_eq, delivers.ring_le, delivers.drained⟩

theorem Delivers.run (delivers : watched.Delivers settings capacity script)
    (schedule : List Occurrence) :
    (watched.run schedule).Delivers settings capacity script := by
  induction schedule generalizing watched with
  | nil => exact delivers
  | cons occurrence rest inductionHypothesis =>
      apply inductionHypothesis
      cases occurrence with
      | turn => exact delivers.turn
      | read => exact delivers.read
      | cancel => exact delivers.cancel

theorem Delivers.emptied
    {stream : ReceiveStream} {taken : List ReceiveResult} {halted : Bool}
    (delivers : Delivers settings capacity script ⟨stream, taken, halted⟩) :
    Delivers settings capacity script ⟨stream.emptied, taken ++ stream.ring, halted⟩ := by
  obtain ⟨readings, consumed, owes⟩ := delivers.owes
  refine ⟨⟨readings, consumed, owes.reassembler, owes.ended, ?_⟩, delivers.capacity_eq,
    Nat.zero_le _, delivers.drained⟩
  rw [← owes.delivered]
  simp [ReceiveStream.emptied]

theorem Delivers.collect
    {stream : ReceiveStream} {taken : List ReceiveResult} {halted : Bool}
    (delivers : Delivers settings capacity script ⟨stream, taken, halted⟩) :
    ∃ halts readings, script = readings ++ stream.collect.2.script ∧
      taken ++ stream.collect.1 = ReceiveStream.delivered settings readings halts := by
  have next :
      Delivers settings capacity script
        ⟨stream.emptied.turn, taken ++ stream.ring,
          halted || (stream.emptied.cancelled && !stream.emptied.closed)⟩ :=
    delivers.emptied.turn
  rw [ReceiveStream.collect]
  by_cases goesOn : stream.emptied.turn.closed = false
  · obtain ⟨halts, readings, consumed, given⟩ := Delivers.collect next
    rw [if_pos goesOn]
    refine ⟨halts, readings, consumed, ?_⟩
    rw [← given, List.append_assoc]
  · obtain ⟨readings, consumed, owes⟩ := next.owes
    rw [if_neg goesOn]
    rw [Bool.not_eq_false] at goesOn
    have given := owes.delivered
    rw [(next.drained goesOn).2, List.append_nil, List.append_assoc] at given
    exact ⟨_, readings, consumed, given⟩
termination_by stream.remaining
decreasing_by exact ReceiveStream.remaining_turn_lt stream goesOn

end Delivers

end Watched

/-- A stream of which nothing has been read. -/
def ReceiveStream.fresh (settings : ReassemblerSettings) (capacity : Nat)
    (script : List Reading) : ReceiveStream where
  script
  reassembler := .new settings
  ringCapacity := max 1 capacity
  ringCapacity_pos := by omega

theorem ReceiveStream.new_eq_ok_iff
    {settings : StreamSettings} {script : List Reading} {stream : ReceiveStream} :
    ReceiveStream.new settings script = .ok stream ↔
      settings.validate = .ok () ∧ ∃ reassembler, settings.reassembler = .ok reassembler ∧
        stream = fresh reassembler settings.ringCapacity script := by
  unfold ReceiveStream.new
  simp only [Except.bind_eq_ok_iff]
  constructor
  · rintro ⟨⟨⟩, valid, reassembler, configured, equal⟩
    cases equal
    exact ⟨valid, reassembler, configured, rfl⟩
  · rintro ⟨valid, reassembler, configured, rfl⟩
    exact ⟨(), valid, reassembler, configured, rfl⟩

theorem StreamSettings.ringCapacity_pos
    {settings : StreamSettings} (valid : settings.validate = .ok ()) :
    0 < settings.ringCapacity := by
  unfold validate at valid
  obtain ⟨_, _, valid⟩ := Except.bind_eq_ok_iff.1 valid
  obtain ⟨_, valid⟩ := Except.guard_eq_ok_iff.1 valid
  obtain ⟨_, valid⟩ := Except.guard_eq_ok_iff.1 valid
  obtain ⟨_, valid⟩ := Except.guard_eq_ok_iff.1 valid
  by_contra none
  rw [Nat.not_lt, Nat.le_zero] at none
  rw [if_pos none] at valid
  cases valid

section New

variable {settings : StreamSettings} {reassembler : ReassemblerSettings} {script : List Reading}
  {stream : ReceiveStream}
  (configured : settings.reassembler = .ok reassembler)
  (started : ReceiveStream.new settings script = .ok stream)

include configured started

theorem ReceiveStream.delivers_new :
    Watched.Delivers reassembler settings.ringCapacity script ⟨stream, [], false⟩ := by
  obtain ⟨valid, same, known, rfl⟩ := new_eq_ok_iff.1 started
  rw [configured, Except.ok.injEq] at known
  subst known
  have positive := settings.ringCapacity_pos valid
  exact ⟨⟨[], rfl, rfl, rfl, rfl⟩, Nat.max_eq_right positive, Nat.zero_le _, by simp [fresh]⟩

/-- After any schedule, what the application has read, what is in the ring and what waits are
together the results of the readings consumed so far: none is lost, doubled or moved. The ring
never holds more than it can, and after a turn nothing waits as long as there is room in it. Nothing
waits when the worker has ended, and a turn reads nothing while something waits. -/
theorem ReceiveStream.delivered_run (schedule : List Occurrence) :
    let now := Watched.run ⟨stream, [], false⟩ schedule
    (∃ readings, script = readings ++ now.stream.script ∧
      now.taken ++ now.stream.ring ++ now.stream.backlog =
        delivered reassembler readings now.halted) ∧
    now.stream.ring.length ≤ settings.ringCapacity ∧
    (now.stream.turn.backlog ≠ [] → now.stream.turn.ring.length = settings.ringCapacity) ∧
    (now.stream.closed = true → now.stream.ended = true ∧ now.stream.backlog = []) ∧
    ∃ readings heard, now.stream.Hears readings heard ∧
      heard.script = now.stream.turn.script := by
  intro now
  have delivers := (delivers_new configured started).run schedule
  have capacity := delivers.capacity_eq
  obtain ⟨readings, consumed, owes⟩ := delivers.owes
  refine ⟨⟨readings, consumed, owes.delivered⟩, delivers.ring_le, ?_, delivers.drained,
    now.stream.exists_hears_turn⟩
  rw [← capacity]
  apply length_ring_turn_eq
  · rw [capacity]
    exact delivers.ring_le
  · exact fun closed => (delivers.drained closed).2

/-- Who reads until the stream is over gets all results. -/
theorem ReceiveStream.exists_collect_eq_delivered :
    ∃ readings halted, script = readings ++ stream.collect.2.script ∧
      stream.collect.1 = delivered reassembler readings halted := by
  obtain ⟨halted, readings, consumed, given⟩ := (delivers_new configured started).collect
  exact ⟨readings, halted, consumed, given⟩

end New

/-- A ring with room for one result holds up a heap that is given up and the failure of the source,
until the application has read what came before. -/
theorem ReceiveStream.delivered_run_of_full_ring :
    let whole : Packet := ⟨1, 0, 0, 0, 40, [], []⟩
    let part : Packet := ⟨2, 2, 0, 1, 40, [], [7]⟩
    let script : List Reading := [.packet whole.toBytes, .packet part.toBytes, .failed .closed]
    ∃ stream, ReceiveStream.new { ringCapacity := 1 } script = .ok stream ∧
      let now := Watched.run ⟨stream, [], false⟩ [.turn, .turn, .read, .cancel, .turn]
      now.stream.ring.length ≤ 1 ∧ now.taken ++ now.stream.ring ++ now.stream.backlog =
        [.ok ⟨1, .standard, []⟩, .error (.reassembly (.truncatedHeap 2 1 2)),
          .error (.transport .closed)] := by
  intro whole part script
  have configured : StreamSettings.reassembler { ringCapacity := 1 } = .ok {} := rfl
  have started : ReceiveStream.new { ringCapacity := 1 } script = .ok (fresh {} 1 script) :=
    new_eq_ok_iff.2 ⟨rfl, _, configured, rfl⟩
  refine ⟨_, started, ?_⟩
  obtain ⟨⟨readings, consumed, given⟩, bounded, _⟩ :=
    delivered_run configured started [.turn, .turn, .read, .cancel, .turn]
  have exhausted : (Watched.run ⟨fresh {} 1 script, [], false⟩
      [.turn, .turn, .read, .cancel, .turn]).stream.script = [] := by
    decide +kernel
  rw [exhausted, List.append_nil] at consumed
  refine ⟨bounded, given.trans ?_⟩
  rw [← consumed]
  decide +kernel

end Spead
