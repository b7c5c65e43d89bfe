import Spead.Heap.Layout
import Spead.Settings.Stream

/-!
The sending side of a stream: heaps cut into packets for a sink.

A sink is whatever takes packets: a state, and a rule that says for each packet whether it is
accepted, or why not, and what becomes of the sink. The counters tell what the sink has accepted.
-/

namespace Spead

structure SendStats where
  /-- Heaps of which every packet was accepted. -/
  heaps : Nat := 0
  packets : Nat := 0
  /-- Bytes of the packets. -/
  bytes : Nat := 0
  deriving DecidableEq, Repr

def SendStats.summary (stats : SendStats) : String :=
  s!"=== Send ===\nHeaps sent: {stats.heaps}\nPackets sent: {stats.packets}\n" ++
    s!"Bytes sent: {stats.bytes}\n"

structure SendStream (sink : Type) where
  sink : sink
  flavour : Flavour
  maxPacketSize : Nat
  stats : SendStats := {}

namespace SendStream

variable {sink : Type}

def new (start : sink) (settings : StreamSettings) : Except SettingsError (SendStream sink) := do
  settings.validate
  return {
    sink := start
    flavour := ← settings.flavour
    maxPacketSize := settings.maxPacketSize }

/-- The stream after its sink has accepted a packet and become `next`. -/
def count (stream : SendStream sink) (next : sink) (packet : Bytes) : SendStream sink :=
  { stream with
    sink := next
    stats.packets := stream.stats.packets + 1
    stats.bytes := stream.stats.bytes + packet.length }

/-- Hand packets to the sink until it refuses one. -/
def sendPackets (accept : sink → Bytes → Except Error Unit × sink) :
    List Bytes → SendStream sink → Except Error Unit × SendStream sink
  | [], stream => (.ok (), stream)
  | packet :: rest, stream =>
      match accept stream.sink packet with
      | (.error cause, next) => (.error cause, { stream with sink := next })
      | (.ok (), next) => sendPackets accept rest (stream.count next packet)

/-- Send a heap. Nothing of a heap that cannot be cut into packets is sent. -/
def sendHeap (accept : sink → Bytes → Except Error Unit × sink) (stream : SendStream sink)
    (heap : Heap) : Except Error Unit × SendStream sink :=
  match heap.packetBytes stream.maxPacketSize with
  | .error cause => (.error (cause : Error), stream)
  | .ok packets =>
      match sendPackets accept packets stream with
      | (.error cause, stopped) => (.error cause, stopped)
      | (.ok (), done) => (.ok (), { done with stats.heaps := done.stats.heaps + 1 })

end SendStream

/-- A sink that keeps its packets, up to a limit if there is one. -/
structure PacketStore where
  /-- The packets, the latest first. -/
  packets : List Bytes := []
  limit : Option Nat := none
  deriving DecidableEq, Repr

namespace PacketStore

/-- Keep a packet. Beyond the limit the store is closed. -/
def accept (store : PacketStore) (packet : Bytes) : Except Error Unit × PacketStore :=
  if store.limit.any fun limit => limit ≤ store.packets.length then
    (.error (TransportError.closed : Error), store)
  else
    (.ok (), { store with packets := packet :: store.packets })

def toBytes (store : PacketStore) : Bytes :=
  store.packets.reverse.flatten

end PacketStore
end Spead
