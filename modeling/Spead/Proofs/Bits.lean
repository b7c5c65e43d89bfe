import Spead.Bits.Writer
import Spead.Proofs.Except

/-!
How many bits are written, and how many bytes they fill.
-/

namespace Spead
namespace Bits
namespace Writer

@[simp] theorem bitLength_empty : empty.bitLength = 0 :=
  rfl

@[simp] theorem bitLength_append (writer : Writer) (value count : Nat) :
    (writer.append value count).bitLength = writer.bitLength + count := by
  simp only [bitLength, append, List.length_append, Bytes.length_littleEndian]
  omega

theorem bitLength_write
    {writer next : Writer} {value count : Nat} (written : writer.write value count = .ok next) :
    next.bitLength = writer.bitLength + count := by
  unfold write at written
  split at written
  · cases written
    exact bitLength_append writer value count
  · cases written

/-- Bits are counted step by step, if every step writes as many as are expected of it. -/
theorem bitLength_foldlM
    {item cause : Type} {step : Writer → item → Except cause Writer} {size : item → Nat}
    (sized : ∀ writer item next, step writer item = .ok next →
      next.bitLength = writer.bitLength + size item)
    {items : List item} {writer next : Writer} (written : items.foldlM step writer = .ok next) :
    next.bitLength = writer.bitLength + (items.map size).sum := by
  induction items generalizing writer with
  | nil =>
      cases written
      simp
  | cons item rest inductionHypothesis =>
      rw [List.foldlM_cons, Except.bind_eq_ok_iff] at written
      obtain ⟨middle, first, others⟩ := written
      rw [inductionHypothesis others, sized _ _ _ first, List.map_cons, List.sum_cons,
        Nat.add_assoc]

theorem length_finish (writer : Writer) : writer.finish.length = (writer.bitLength + 7) / 8 := by
  have small := writer.pendingCount_lt
  unfold finish bitLength
  split
  · next whole =>
      rw [List.length_reverse]
      omega
  · next unfinished =>
      rw [List.length_reverse, List.length_cons]
      omega

end Writer
end Bits
end Spead
