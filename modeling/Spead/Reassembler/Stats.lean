import Spead.Table

/-!
What a receiver counts.
-/

namespace Spead

structure ReceiveStats where
  packetsReceived : Nat := 0
  packetsMalformed : Nat := 0
  /-- Packets that brought no new byte. -/
  packetsDuplicate : Nat := 0
  /-- Packets that came after one with a larger offset in the same heap. -/
  packetsReordered : Nat := 0
  /-- Packets of finished heaps, and packets after the end of the stream. -/
  packetsIgnored : Nat := 0
  bytesReceived : Nat := 0
  heapsCompleted : Nat := 0
  heapsEvicted : Nat := 0
  heapsTruncated : Nat := 0
  heapsAbandoned : Nat := 0
  /-- Whether the stream has ended. -/
  ended : Bool := false
  deriving DecidableEq, Repr

/-- The largest payload offset seen of each heap. -/
structure OffsetTracker where
  highest : Table Nat Nat := {}
  deriving DecidableEq, Repr

namespace OffsetTracker

/-- Whether a packet with this offset comes after one with a larger offset. -/
def isLate (tracker : OffsetTracker) (heapCount offset : Nat) : Bool :=
  (tracker.highest.get? heapCount).any fun seen => offset < seen

def note (tracker : OffsetTracker) (heapCount offset : Nat) : OffsetTracker :=
  let seen := (tracker.highest.get? heapCount).getD offset
  ⟨tracker.highest.put heapCount (max seen offset)⟩

def forget (tracker : OffsetTracker) (heapCount : Nat) : OffsetTracker :=
  ⟨tracker.highest.erase heapCount⟩

end OffsetTracker
end Spead
