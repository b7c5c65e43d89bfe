import Spead.Packet.Basic
import Spead.Reassembler.Basic
import Spead.Settings.Value

/-!
Settings of streams. Every setting has a default.
-/

namespace Spead

structure StreamSettings where
  /-- The longest packet, in bytes. The default fills an Ethernet frame. -/
  maxPacketSize : Nat := 1472
  /-- Width of heap addresses. -/
  addressBits : Nat := 40
  /-- Names of the deviations of the peer. -/
  compatNames : List String := []
  /-- How many incomplete heaps a receiver keeps. -/
  maxHeaps : Nat := 4
  /-- How many results wait between a receiver and the application. -/
  ringCapacity : Nat := 4
  /-- How many finished heaps a receiver remembers. -/
  historyLength : Nat := 64
  /-- The longest payload of a heap that a receiver accepts. -/
  maxHeapSize : Nat := 2 ^ 26
  /-- How long a receiver waits at a time, in milliseconds. -/
  pollInterval : Nat := 10
  deriving DecidableEq, Repr

namespace StreamSettings

/-! ## Reading -/

def names : List String :=
  ["max_packet_size", "heap_address_bits", "bug_compat", "max_heaps", "ring_capacity",
    "history_len", "max_heap_size", "poll_interval_ms"]

def set? (settings : StreamSettings) (name : String) (value : SettingValue) :
    Option StreamSettings :=
  match name with
  | "max_packet_size" => value.word?.map fun size => { settings with maxPacketSize := size }
  | "heap_address_bits" =>
      (value.below? (2 ^ 32)).map fun bits => { settings with addressBits := bits }
  | "bug_compat" => value.texts?.map fun texts => { settings with compatNames := texts }
  | "max_heaps" => value.word?.map fun count => { settings with maxHeaps := count }
  | "ring_capacity" => value.word?.map fun count => { settings with ringCapacity := count }
  | "history_len" => value.word?.map fun count => { settings with historyLength := count }
  | "max_heap_size" => value.word?.map fun size => { settings with maxHeapSize := size }
  | "poll_interval_ms" => value.word?.map fun time => { settings with pollInterval := time }
  | _ => none

def ofValue? (surplus : Surplus) (value : SettingValue) : Option StreamSettings :=
  value.readRecord? surplus names set? {}

/-! ## Meaning -/

/-- The deviations of the peer. The first unknown name is reported. -/
def compat (settings : StreamSettings) : Except SettingsError Compat :=
  settings.compatNames.foldlM (fun compat name =>
    match Compat.ofName? name with
    | some more => .ok (compat.union more)
    | none => .error (.unknownFlag name)) .none

def flavour (settings : StreamSettings) : Except SettingsError Flavour := do
  match Flavour.of settings.addressBits (← settings.compat) with
  | .ok flavour => return flavour
  | .error cause => throw (.flavour cause)

def reassembler (settings : StreamSettings) : Except SettingsError ReassemblerSettings := do
  return {
    maxHeaps := settings.maxHeaps
    compat := ← settings.compat
    historyLength := settings.historyLength
    maxHeapSize := settings.maxHeapSize }

/-- The size of a packet with one byte and no pointer of its own. No stream can do with less. -/
def minPacketSize : Nat :=
  Packet.sizeFor 0 1

def validate (settings : StreamSettings) : Except SettingsError Unit := do
  let _ ← settings.flavour
  if settings.maxPacketSize < minPacketSize then
    throw (.packetSize settings.maxPacketSize minPacketSize)
  if settings.maxHeaps = 0 then
    throw (.mustBePositive "max_heaps")
  if settings.maxHeapSize = 0 then
    throw (.mustBePositive "max_heap_size")
  if settings.ringCapacity = 0 then
    throw (.mustBePositive "ring_capacity")

end StreamSettings
end Spead
