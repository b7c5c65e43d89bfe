import Spead.Settings.Stream
import Spead.Transport

/-!
The receiving side of a stream: a worker that reads packets, puts heaps together and hands them to
the application.

The worker works in turns. In a turn it reads a batch of packets, unless results of an earlier turn
still wait, and moves what waits into a ring as far as there is room. The application reads from the
ring at any time. Whatever the order of turns and reads, what the application has read, the ring
and the results that wait are together what the packets give, in order.
-/

namespace Spead

/-- A heap that came whole, or why one did not. -/
abbrev ReceiveResult := Except Error ReceivedHeap

def ReassemblyEvent.result? : ReassemblyEvent → Option ReceiveResult
  | .heap received => some (.ok received)
  | .dropped cause => some (.error (cause : Error))
  | .endOfStream => none

structure ReceiveStream where
  /-- What the source still has to tell. A source with nothing left stays silent. -/
  script : List Reading
  reassembler : Reassembler
  /-- How many results the ring holds. -/
  ringCapacity : Nat
  ringCapacity_pos : 0 < ringCapacity
  /-- Results for the application, the oldest first. -/
  ring : List ReceiveResult := []
  /-- Results that wait for room in the ring, the oldest first. -/
  backlog : List ReceiveResult := []
  /-- Whether nothing more is read from the source. -/
  ended : Bool := false
  /-- Whether the application has asked the worker to stop. -/
  cancelled : Bool := false
  /-- Whether the worker takes no more turns. -/
  closed : Bool := false

namespace ReceiveStream

def new (settings : StreamSettings) (script : List Reading) :
    Except SettingsError ReceiveStream := do
  settings.validate
  let reassembler ← settings.reassembler
  return {
    script
    reassembler := .new reassembler
    ringCapacity := max 1 settings.ringCapacity
    ringCapacity_pos := by omega }

/-! ## Turns -/

def queue (stream : ReceiveStream) (events : List ReassemblyEvent) : ReceiveStream :=
  { stream with
    backlog := stream.backlog ++ events.filterMap ReassemblyEvent.result?
    ended := stream.ended || events.contains .endOfStream }

/-- End the stream. Heaps that are still incomplete are given up. -/
def finish (stream : ReceiveStream) : ReceiveStream :=
  let (reassembler, events) := stream.reassembler.stop
  { ({ stream with reassembler }).queue events with ended := true }

/-- Act on what the source tells. A packet that cannot be read is only counted. -/
def hear (stream : ReceiveStream) : Reading → ReceiveStream
  | .packet bytes =>
      let (reassembler, events) := stream.reassembler.insertBytes bytes
      ({ stream with reassembler }).queue (events.toOption.getD [])
  | .pending => stream
  | .closed => stream.finish
  | .failed cause =>
      let finished := stream.finish
      { finished with backlog := finished.backlog ++ [.error (cause : Error)] }

/-- How many packets are read in one turn, at most. -/
def packetsPerTurn : Nat := 64

/-- Read at most `budget` packets. Reading ends early when the source has no packet, when there are
results and when the stream ends. -/
def readBatch : (budget : Nat) → ReceiveStream → ReceiveStream
  | 0, stream => stream
  | budget + 1, stream =>
      match stream.script with
      | [] => stream
      | .packet bytes :: rest =>
          let next := ({ stream with script := rest }).hear (.packet bytes)
          if next.ended || !next.backlog.isEmpty then next else readBatch budget next
      | reading :: rest => ({ stream with script := rest }).hear reading

/-- Move waiting results into the ring, as far as there is room. -/
def flush (stream : ReceiveStream) : ReceiveStream :=
  let room := stream.ringCapacity - stream.ring.length
  { stream with
    ring := stream.ring ++ stream.backlog.take room
    backlog := stream.backlog.drop room }

/-- The first half of a turn: notice a request to stop, else read unless results wait. -/
def advance (stream : ReceiveStream) : ReceiveStream :=
  let current := if stream.cancelled && !stream.ended then stream.finish else stream
  if !current.ended && current.backlog.isEmpty then
    current.readBatch packetsPerTurn
  else
    current

def turn (stream : ReceiveStream) : ReceiveStream :=
  if stream.closed then
    stream
  else
    let flushed := stream.advance.flush
    { flushed with closed := flushed.ended && flushed.backlog.isEmpty }

/-! ## The application's side -/

def read? (stream : ReceiveStream) : Option (ReceiveResult × ReceiveStream) :=
  match stream.ring with
  | [] => none
  | result :: rest => some (result, { stream with ring := rest })

/-- Ask the worker to stop. What waits can still be read. -/
def cancel (stream : ReceiveStream) : ReceiveStream :=
  { stream with cancelled := true }

/-! ## Whole runs -/

/-- The stream after the application has read all that is in the ring, and has asked a worker whose
source has fallen silent to stop. -/
def emptied (stream : ReceiveStream) : ReceiveStream :=
  { stream with
    ring := []
    cancelled := stream.cancelled || stream.script.isEmpty }

/-- How much there is left to do: readings and the end of the stream, and then results that
wait. -/
def remaining (stream : ReceiveStream) : Nat × Nat :=
  (if stream.ended then 0 else stream.script.length + 1, stream.backlog.length)

theorem ended_finish (stream : ReceiveStream) :
    stream.finish.ended = true := rfl

@[simp] theorem script_hear (stream : ReceiveStream) (reading : Reading) :
    (stream.hear reading).script = stream.script := by
  cases reading <;> rfl

theorem length_script_readBatch_le (budget : Nat) (stream : ReceiveStream) :
    (stream.readBatch budget).script.length ≤ stream.script.length := by
  induction budget generalizing stream with
  | zero => exact Nat.le_refl _
  | succ budget inductionHypothesis =>
      unfold readBatch
      split
      · exact Nat.le_refl _
      · next rest script =>
          dsimp only
          split
          · simp [script]
          · refine Nat.le_trans (inductionHypothesis _) ?_
            simp [script]
      · next script => simp [script]

/-- A batch takes at least one reading. -/
theorem length_script_readBatch_lt (budget : Nat) (stream : ReceiveStream)
    (more : stream.script ≠ []) :
    (stream.readBatch (budget + 1)).script.length < stream.script.length := by
  unfold readBatch
  split
  · next script => exact absurd script more
  · next rest script =>
      dsimp only
      split
      · simp [script]
      · refine Nat.lt_of_le_of_lt (length_script_readBatch_le _ _) ?_
        simp [script]
  · next script => simp [script]

@[simp] theorem ring_hear (stream : ReceiveStream) (reading : Reading) :
    (stream.hear reading).ring = stream.ring := by
  cases reading <;> rfl

@[simp] theorem ringCapacity_hear (stream : ReceiveStream) (reading : Reading) :
    (stream.hear reading).ringCapacity = stream.ringCapacity := by
  cases reading <;> rfl

@[simp] theorem ring_readBatch (budget : Nat) (stream : ReceiveStream) :
    (stream.readBatch budget).ring = stream.ring := by
  induction budget generalizing stream with
  | zero => rfl
  | succ budget inductionHypothesis =>
      unfold readBatch
      split
      · rfl
      · dsimp only
        split <;> simp [inductionHypothesis]
      · simp

/-- Reading and stopping leave the ring to the application. -/
@[simp] theorem ring_advance (stream : ReceiveStream) :
    stream.advance.ring = stream.ring := by
  unfold advance
  dsimp only
  split <;> split <;> simp <;> rfl

/-- A turn with an empty ring moves a waiting result, if there is one. -/
theorem length_backlog_flush_lt (stream : ReceiveStream)
    (ringEmpty : stream.ring = [])
    (waiting : stream.backlog ≠ []) :
    stream.flush.backlog.length < stream.backlog.length := by
  have capacity := stream.ringCapacity_pos
  have length := List.length_pos_iff.mpr waiting
  simp only [flush, ringEmpty, List.length_drop, List.length_nil]
  omega

/-- A stream that has not ended, and whose source tells something or that is asked to stop, has
less to hear after reading. -/
theorem advance_reads (stream : ReceiveStream)
    (live : stream.ended = false)
    (idle : stream.backlog = [])
    (ready : stream.cancelled = true ∨ stream.script ≠ []) :
    stream.advance.remaining.1 < stream.remaining.1 := by
  unfold advance
  cases asked : stream.cancelled with
  | true => simp [live, remaining, ended_finish]
  | false =>
      have more : stream.script ≠ [] := by simpa [asked] using ready
      have shorter := length_script_readBatch_lt 63 stream more
      rw [show 63 + 1 = packetsPerTurn from rfl] at shorter
      simp only [live, idle, remaining, Bool.false_and, Bool.not_false, List.isEmpty_nil,
        Bool.and_self, Bool.false_eq_true, if_true, if_false]
      split <;> omega

/-- Results that wait are not added to, unless the stream is asked to stop. -/
theorem advance_waits (stream : ReceiveStream)
    (waiting : stream.backlog ≠ []) :
    stream.advance = stream ∨ stream.advance.remaining.1 < stream.remaining.1 := by
  unfold advance
  cases ended : stream.ended with
  | true => simp [ended]
  | false =>
      cases asked : stream.cancelled with
      | true => simp [ended, remaining, ended_finish]
      | false => simp [ended, waiting]

/-- A turn after which the worker goes on leaves less to do. -/
theorem remaining_turn_lt (stream : ReceiveStream)
    (goesOn : stream.emptied.turn.closed = false) :
    Prod.Lex (· < ·) (· < ·) stream.emptied.turn.remaining stream.remaining := by
  have ringEmpty : stream.emptied.advance.ring = [] := by simp [emptied]
  have same : stream.remaining = stream.emptied.remaining := rfl
  have ready : stream.emptied.cancelled = true ∨ stream.emptied.script ≠ [] := by
    cases script : stream.script <;> simp [emptied, script]
  rw [same]
  generalize stream.emptied = current at *
  unfold turn at goesOn ⊢
  split at goesOn
  · next isOver => simp [isOver] at goesOn
  · next notOver =>
      rw [if_neg notOver]
      have first : ∀ closed, ({ current.advance.flush with closed } : ReceiveStream).remaining =
          (current.advance.remaining.1, current.advance.flush.backlog.length) := fun _ => rfl
      rw [first]
      have less : current.advance.remaining.1 < current.remaining.1 ∨
          (current.advance.remaining.1 = current.remaining.1 ∧
            current.advance.flush.backlog.length < current.remaining.2) := by
        by_cases idle : current.backlog = []
        · cases live : current.ended with
          | false => exact .inl (advance_reads current live idle ready)
          | true =>
              have still : current.advance = current := by simp [advance, live]
              simp [still, flush, live, idle] at goesOn
        · rcases advance_waits current idle with still | less
          · rw [still] at ringEmpty ⊢
            exact .inr ⟨rfl, length_backlog_flush_lt current ringEmpty idle⟩
          · exact .inl less
      rcases less with less | ⟨equal, less⟩
      · exact Prod.Lex.left _ _ less
      · rw [equal]
        exact Prod.Lex.right _ less

/-- Let the worker take its turns, and read everything, until the stream is over. The results come
with the stream as it is then, its ring empty. -/
def collect (stream : ReceiveStream) : List ReceiveResult × ReceiveStream :=
  let turned := stream.emptied.turn
  if turned.closed = false then
    let (later, final) := turned.collect
    (stream.ring ++ later, final)
  else
    (stream.ring ++ turned.ring, { turned with ring := [] })
termination_by stream.remaining
decreasing_by exact remaining_turn_lt stream (by assumption)

end ReceiveStream
end Spead
