import Spead.Bytes
import Spead.Random
import Spead.Settings.Network

/-!
A simulated network that loses, doubles, delays and so reorders packets.

What happens to a packet is its `PacketFate`; it is drawn from the settings, but the network itself
takes it as an argument, as it takes the time. Packets arrive in the order of their due times, and
those with the same due time in the order in which they were sent on their way.
-/

namespace Spead

/-- What happens to a packet. Delays are counted as the clock counts. -/
inductive PacketFate where
  | lost
  | delivered (delay : Nat)
  /-- The copy is sent on its way before the packet. -/
  | doubled (copyDelay delay : Nat)
  deriving DecidableEq, Repr

structure PacketInFlight where
  packet : Bytes
  /-- When the packet arrives. -/
  dueTime : Nat
  /-- Counts the packets that were sent on their way before. -/
  sequence : Nat
  deriving DecidableEq, Repr

structure NetworkStats where
  sent : Nat := 0
  dropped : Nat := 0
  /-- Copies sent on their way. -/
  duplicated : Nat := 0
  /-- Packets handed out, copies among them. -/
  delivered : Nat := 0
  deriving DecidableEq, Repr

structure Network where
  /-- Packets on their way, the last to arrive first. -/
  queue : List PacketInFlight := []
  nextSequence : Nat := 0
  stats : NetworkStats := {}
  deriving DecidableEq, Repr

/-! ## Fates -/

namespace NetworkSettings

/-- The delay in milliseconds that follows from a number drawn from zero to twice the jitter. The
sum is a signed word, so latencies from `2 ^ 63` on count from below zero; what is below zero is no
delay. -/
def delay (settings : NetworkSettings) (drawn : Nat) : Nat :=
  (Int.bmod (settings.baseLatency + drawn - settings.jitter) wordLimit).toNat

section Draws

variable [RandomSource] (settings : NetworkSettings) (source : RandomSource.State)

def drawDelay : Nat × RandomSource.State :=
  if settings.jitter = 0 then
    (settings.baseLatency, source)
  else
    let (drawn, next) := RandomSource.upTo (2 * settings.jitter) source
    (settings.delay drawn, next)

/-- Draw what happens to a packet. -/
def drawFate : PacketFate × RandomSource.State :=
  let (isLost, afterLoss) := RandomSource.chance settings.lossRate source
  if isLost then
    (.lost, afterLoss)
  else
    let (isDoubled, afterChance) := RandomSource.chance settings.duplicateRate afterLoss
    let (first, afterFirst) := settings.drawDelay afterChance
    if isDoubled then
      let (second, afterSecond) := settings.drawDelay afterFirst
      (.doubled first second, afterSecond)
    else
      (.delivered first, afterFirst)

end Draws

end NetworkSettings

namespace Network

/-! ## Sending -/

/-- Put a packet before all that do not arrive later. -/
def insertInFlight (flight : PacketInFlight) : List PacketInFlight → List PacketInFlight
  | [] => [flight]
  | head :: tail =>
      if flight.dueTime < head.dueTime then
        head :: insertInFlight flight tail
      else
        flight :: head :: tail

def schedule (network : Network) (dueTime : Nat) (packet : Bytes) : Network :=
  { network with
    queue := insertInFlight ⟨packet, dueTime, network.nextSequence⟩ network.queue
    nextSequence := network.nextSequence + 1 }

/-- Send a packet that meets the given fate. The clock is read whenever something is sent on its
way: it shows `now` for the copy, if there is one, and `later` for the packet itself. -/
def sendWithin (network : Network) (now later : Nat) (fate : PacketFate) (packet : Bytes) :
    Network :=
  let counted : Network := { network with stats.sent := network.stats.sent + 1 }
  match fate with
  | .lost => { counted with stats.dropped := counted.stats.dropped + 1 }
  | .delivered delay => counted.schedule (later + delay) packet
  | .doubled copyDelay delay =>
      let copied : Network :=
        { counted with stats.duplicated := counted.stats.duplicated + 1 }
      (copied.schedule (now + copyDelay) packet).schedule (later + delay) packet

/-- Send a packet that meets the given fate while the clock stands still. -/
def send (network : Network) (now : Nat) (fate : PacketFate) (packet : Bytes) : Network :=
  network.sendWithin now now fate packet

/-! ## Receiving -/

/-- Packets on their way in the order of their arrival. -/
def arrivals (network : Network) : List PacketInFlight :=
  network.queue.reverse

def nextDelivery? (network : Network) : Option Nat :=
  network.arrivals.head?.map PacketInFlight.dueTime

def receive? (network : Network) (now : Nat) : Option (Bytes × Network) :=
  match network.arrivals with
  | [] => none
  | flight :: rest =>
      if flight.dueTime ≤ now then
        some (flight.packet,
          { network with
            queue := rest.reverse
            stats.delivered := network.stats.delivered + 1 })
      else
        none

/-- When waiting for a packet ends: at once if one is there or none is on its way, else with the
next arrival or when the patience of `timeout` runs out. -/
def waitUntil (network : Network) (now timeout : Nat) : Nat :=
  match network.nextDelivery? with
  | none => now
  | some dueTime => max now (min dueTime (now + timeout))

def drain (network : Network) : List Bytes × Network :=
  (network.arrivals.map PacketInFlight.packet,
    { network with
      queue := []
      stats.delivered := network.stats.delivered + network.queue.length })

def inFlight (network : Network) : Nat :=
  network.queue.length

end Network

/-! ## Rates -/

namespace NetworkStats

def lossRate (stats : NetworkStats) : Binary64 :=
  .share stats.dropped stats.sent

/-- Delivered packets per packet sent; more than one if packets were doubled. -/
def deliveryRate (stats : NetworkStats) : Binary64 :=
  .share stats.delivered stats.sent

end NetworkStats
end Spead
