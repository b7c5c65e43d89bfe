import Spead.Network
import Spead.Packet.Wire

/-!
Ways for packets from a sender to a receiver.

A receiver sees its side of a transport as a list of readings: what it is told each time it asks.
Packets can come out of one buffer that holds them one after the other, through a bounded channel,
or over a simulated network.
-/

namespace Spead

/-- What a source of packets answers. -/
inductive Reading where
  | packet (bytes : Bytes)
  /-- Nothing is there yet. -/
  | pending
  /-- Nothing will come any more. -/
  | closed
  | failed (cause : TransportError)
  deriving DecidableEq, Repr

/-! ## Buffers -/

namespace PacketBuffer

/-- The length of the packet that begins a buffer. Where no packet can be read, everything that is
left counts as one. -/
def boundary (buffer : Bytes) : Nat :=
  match Packet.parse buffer with
  | .ok (_, used) => used
  | .error _ => buffer.length

/-- Receive the packet that begins a buffer, with what is left of the buffer. -/
def receive (buffer : Bytes) : Reading × Bytes :=
  if buffer.isEmpty then
    (.closed, buffer)
  else
    (.packet (buffer.take (boundary buffer)), buffer.drop (boundary buffer))

def splitWithin : (count : Nat) → (buffer : Bytes) → List Bytes
  | 0, _ => []
  | count + 1, buffer =>
      match receive buffer with
      | (.packet packet, rest) => packet :: splitWithin count rest
      | _ => []

/-- The packets of a buffer. There are no more of them than bytes. -/
def split (buffer : Bytes) : List Bytes :=
  splitWithin buffer.length buffer

end PacketBuffer

/-- What a source tells that has packets to hand out and then nothing more. -/
def readingsOf (packets : List Bytes) : List Reading :=
  packets.map Reading.packet ++ [.closed]

/-! ## Channels -/

/-- A channel that holds a bounded number of packets. -/
structure Channel where
  capacity : Nat
  /-- The packets on their way, the oldest first. -/
  queue : List Bytes := []
  /-- Which senders may still send. -/
  openSenders : List Nat
  /-- Whether someone receives. -/
  hasReceiver : Bool := true
  deriving DecidableEq, Repr

namespace Channel

/-- An empty channel for the given number of senders. It holds at least one packet. -/
def new (capacity senders : Nat) : Channel where
  capacity := max 1 capacity
  openSenders := List.range senders

/-- Whether a sender need not wait. -/
def hasRoom (channel : Channel) : Bool :=
  channel.queue.length < channel.capacity

def send (channel : Channel) (sender : Nat) (packet : Bytes) : Except TransportError Channel :=
  if channel.openSenders.contains sender && channel.hasReceiver then
    .ok { channel with queue := channel.queue ++ [packet] }
  else
    .error .closed

def close (channel : Channel) (sender : Nat) : Channel :=
  { channel with openSenders := channel.openSenders.filter fun other => other ≠ sender }

def closeAll (channel : Channel) : Channel :=
  { channel with openSenders := [] }

def abandon (channel : Channel) : Channel :=
  { channel with hasReceiver := false }

def receive (channel : Channel) : Reading × Channel :=
  match channel.queue with
  | packet :: rest => (.packet packet, { channel with queue := rest })
  | [] => (if channel.openSenders.isEmpty then .closed else .pending, channel)

end Channel

/-! ## Links -/

/-- A simulated network between one sender and one receiver. Its clock counts milliseconds. -/
structure Link [RandomSource] where
  settings : NetworkSettings
  network : Network := {}
  source : RandomSource.State
  closed : Bool := false

namespace Link

variable [RandomSource]

def new (settings : NetworkSettings) : Link where
  settings
  source := RandomSource.ofSeed settings.seed

def send (link : Link) (now : Nat) (packet : Bytes) : Except TransportError Link :=
  if link.closed then
    .error .closed
  else
    let (fate, source) := link.settings.drawFate link.source
    .ok { link with network := link.network.send now fate packet, source }

/-- Send a packet, or say why not. A packet that is refused leaves the link as it was. -/
def accept (now : Nat) (link : Link) (packet : Bytes) : Except Error Unit × Link :=
  match link.send now packet with
  | .error cause => (.error (cause : Error), link)
  | .ok next => (.ok (), next)

/-- End what the sender has to say. What is on its way still arrives. -/
def close (link : Link) : Link :=
  { link with closed := true }

def receive (link : Link) (now : Nat) : Reading × Link :=
  match link.network.receive? now with
  | some (packet, network) => (.packet packet, { link with network })
  | none => (if link.closed && link.network.queue.isEmpty then .closed else .pending, link)

/-- What the receiver is told if it waits for everything on its way and the sender is done. -/
def readings (link : Link) : List Reading :=
  readingsOf link.network.drain.1

end Link
end Spead
