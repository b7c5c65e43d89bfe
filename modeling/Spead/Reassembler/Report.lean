import Spead.Decimal.Text
import Spead.Reassembler.Stats

/-!
What a receiver has counted, as text.

Durations are in microseconds. A report for people shows rates; the export is for programs.
-/

namespace Spead
namespace ReceiveStats

def heapsLost (stats : ReceiveStats) : Nat :=
  stats.heapsEvicted + stats.heapsTruncated + stats.heapsAbandoned

def duplicateRate (stats : ReceiveStats) : Binary64 :=
  .share stats.packetsDuplicate stats.packetsReceived

def reorderRate (stats : ReceiveStats) : Binary64 :=
  .share stats.packetsReordered stats.packetsReceived

/-- A duration in seconds: its whole seconds and the rest, each rounded, added up. -/
def seconds (duration : Nat) : Binary64 :=
  (Binary64.ofNat (duration / 10 ^ 6)).add
    ((Binary64.ofNat (duration % 10 ^ 6 * 1000)).divide (.ofNat (10 ^ 9)))

/-- Bytes of payload per second; zero if no time has passed. -/
def throughput (stats : ReceiveStats) (duration : Nat) : Binary64 :=
  if duration = 0 then
    .ofNat 0
  else
    (Binary64.ofNat stats.bytesReceived).divide (seconds duration)

def megabytes (rate : Binary64) : String :=
  Decimal.twoPlacesBinary64 (rate.divide (.ofNat (10 ^ 6)))

def summary (stats : ReceiveStats) (duration : Nat) : String :=
  String.join ([
    "=== Receive ===",
    s!"Duration: {duration / 1000} ms",
    s!"Packets received: {stats.packetsReceived}",
    s!"Packets malformed: {stats.packetsMalformed}",
    s!"Packets duplicate: {stats.packetsDuplicate} ({Decimal.percentage stats.duplicateRate})",
    s!"Packets reordered: {stats.packetsReordered} ({Decimal.percentage stats.reorderRate})",
    s!"Packets ignored: {stats.packetsIgnored}",
    s!"Heaps completed: {stats.heapsCompleted}",
    s!"Heaps evicted: {stats.heapsEvicted}",
    s!"Heaps truncated: {stats.heapsTruncated}",
    s!"Heaps abandoned: {stats.heapsAbandoned}",
    s!"Throughput: {megabytes (stats.throughput duration)} MB/s"].map (· ++ "\n"))

def fields (stats : ReceiveStats) (duration : Nat) : List (String × Nat) :=
  [("duration_ms", duration / 1000),
    ("packets_received", stats.packetsReceived),
    ("packets_malformed", stats.packetsMalformed),
    ("packets_duplicate", stats.packetsDuplicate),
    ("packets_reordered", stats.packetsReordered),
    ("packets_ignored", stats.packetsIgnored),
    ("bytes_received", stats.bytesReceived),
    ("heaps_completed", stats.heapsCompleted),
    ("heaps_evicted", stats.heapsEvicted),
    ("heaps_truncated", stats.heapsTruncated),
    ("heaps_abandoned", stats.heapsAbandoned)]

def exportText (stats : ReceiveStats) (duration : Nat) : String :=
  String.join ((stats.fields duration).map fun (name, value) => s!"{name}={value}\n")

end ReceiveStats
end Spead
