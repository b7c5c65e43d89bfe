import Mathlib.Data.List.Induction
import Mathlib.Tactic.Ring
import Spead.Bytes

/-!
Numbers as bytes, and strings of bytes cut into pieces.
-/

namespace Spead
namespace Bytes

/-! ## Numbers -/

@[simp] theorem toNat_nil : toNat [] = 0 :=
  rfl

theorem toNat_append (front back : Bytes) :
    toNat (front ++ back) = toNat front * 256 ^ back.length + toNat back := by
  induction back using List.reverseRecOn with
  | nil => simp
  | append_singleton back byte inductionHypothesis =>
      simp only [toNat, List.foldl_append, List.foldl_cons, List.foldl_nil] at *
      rw [inductionHypothesis, List.length_append, List.length_singleton, pow_succ]
      ring

@[simp] theorem toNat_singleton (byte : UInt8) : toNat [byte] = byte.toNat := by
  simp [toNat]

theorem toNat_lt (bytes : Bytes) : toNat bytes < 256 ^ bytes.length := by
  induction bytes using List.reverseRecOn with
  | nil => simp
  | append_singleton bytes byte inductionHypothesis =>
      have small := byte.toNat_lt
      rw [toNat_append, toNat_singleton, List.length_append, List.length_singleton, pow_one,
        pow_succ]
      omega

theorem toNat_reverse_littleEndian (width value : Nat) :
    toNat (littleEndian width value).reverse = value % 256 ^ width := by
  induction width generalizing value with
  | zero => simp [littleEndian, Nat.mod_one]
  | succ width inductionHypothesis =>
      have split : value % 256 ^ (width + 1) = value % 256 + 256 * (value / 256 % 256 ^ width) := by
        rw [pow_succ', Nat.mod_mul]
      rw [littleEndian, List.reverse_cons, toNat_append, toNat_singleton, inductionHypothesis,
        List.length_singleton, pow_one, UInt8.toNat_ofNat', split]
      omega

theorem toNat_bigEndian (width value : Nat) :
    toNat (bigEndian width value) = value % 256 ^ width :=
  toNat_reverse_littleEndian width value

theorem toNat_bigEndian_of_lt {width value : Nat} (small : value < 256 ^ width) :
    toNat (bigEndian width value) = value := by
  rw [toNat_bigEndian, Nat.mod_eq_of_lt small]

/-- Writing back the number that bytes spell. -/
theorem bigEndian_toNat (bytes : Bytes) : bigEndian bytes.length (toNat bytes) = bytes := by
  induction bytes using List.reverseRecOn with
  | nil => rfl
  | append_singleton bytes byte inductionHypothesis =>
      have last : UInt8.ofNat (toNat bytes * 256 + byte.toNat) = byte := by
        apply UInt8.toNat_inj.1
        have small := byte.toNat_lt
        rw [UInt8.toNat_ofNat']
        omega
      have rest : (toNat bytes * 256 + byte.toNat) / 256 = toNat bytes := by
        have small := byte.toNat_lt
        omega
      rw [List.length_append, List.length_singleton, toNat_append, toNat_singleton,
        List.length_singleton, pow_one, bigEndian, littleEndian, List.reverse_cons, last, rest]
      exact congrArg (· ++ [byte]) inductionHypothesis

theorem toNat_replicate_append (count : Nat) (bytes : Bytes) :
    toNat (List.replicate count 0 ++ bytes) = toNat bytes := by
  induction count with
  | zero => simp
  | succ count inductionHypothesis =>
      rw [List.replicate_succ, List.cons_append, ← inductionHypothesis]
      simp [toNat]

/-- A number in a wider field than its bytes need stands at the end of the field. -/
theorem bigEndian_toNat_of_le {width : Nat} {bytes : Bytes} (fits : bytes.length ≤ width) :
    bigEndian width (toNat bytes) = List.replicate (width - bytes.length) 0 ++ bytes := by
  have padded := bigEndian_toNat (List.replicate (width - bytes.length) 0 ++ bytes)
  rw [toNat_replicate_append, List.length_append, List.length_replicate,
    Nat.sub_add_cancel fits] at padded
  exact padded

/-! ## Pieces -/

theorem chunksAfter_eq (size count : Nat) (bytes : Bytes) (cut : List Bytes) :
    chunksAfter size count bytes cut = cut.reverse ++ chunks size count bytes := by
  induction count generalizing bytes cut with
  | zero => simp [chunks, chunksAfter]
  | succ count inductionHypothesis =>
      rw [chunks, chunksAfter, chunksAfter, inductionHypothesis, inductionHypothesis]
      simp

theorem chunks_succ (size count : Nat) (bytes : Bytes) :
    chunks size (count + 1) bytes =
      bytes.take size :: chunks size count (bytes.drop size) := by
  rw [chunks, chunksAfter, chunksAfter_eq]
  rfl

theorem chunks_take (size count : Nat) (bytes : Bytes) :
    chunks size count (bytes.take (count * size)) = chunks size count bytes := by
  induction count generalizing bytes with
  | zero => rfl
  | succ count inductionHypothesis =>
      rw [chunks_succ, chunks_succ, List.take_take, List.drop_take, Nat.add_one_mul,
        Nat.min_eq_left (by omega), Nat.add_sub_cancel, inductionHypothesis]

@[simp] theorem length_chunks (size count : Nat) (bytes : Bytes) :
    (chunks size count bytes).length = count := by
  induction count generalizing bytes with
  | zero => rfl
  | succ count inductionHypothesis => simp [chunks_succ, inductionHypothesis]

theorem getElem?_chunks {size count : Nat} (bytes : Bytes) {place : Nat} (inside : place < count) :
    (chunks size count bytes)[place]? = some ((bytes.drop (place * size)).take size) := by
  induction count generalizing bytes place with
  | zero => omega
  | succ count inductionHypothesis =>
      rw [chunks_succ]
      cases place with
      | zero => simp
      | succ place =>
          rw [List.getElem?_cons_succ, inductionHypothesis _ (by omega), List.drop_drop]
          congr 3
          ring

theorem flatten_chunks (size count : Nat) (bytes : Bytes) :
    (chunks size count bytes).flatten = bytes.take (count * size) := by
  induction count generalizing bytes with
  | zero => simp [chunks, chunksAfter]
  | succ count inductionHypothesis =>
      rw [chunks_succ, List.flatten_cons, inductionHypothesis, Nat.add_one_mul, Nat.add_comm,
        List.take_add]

theorem length_of_mem_chunks
    {size count : Nat} {bytes : Bytes} (enough : count * size ≤ bytes.length) :
    ∀ chunk ∈ chunks size count bytes, chunk.length = size := by
  induction count generalizing bytes with
  | zero => simp [chunks, chunksAfter]
  | succ count inductionHypothesis =>
      rw [Nat.add_one_mul] at enough
      rw [chunks_succ, List.forall_mem_cons]
      constructor
      · rw [List.length_take]
        omega
      · apply inductionHypothesis
        rw [List.length_drop]
        omega

/-- Cutting what blocks of one size were joined to gives the blocks. -/
theorem chunks_flatten_append
    {size : Nat} (blocks : List Bytes) (sized : ∀ block ∈ blocks, block.length = size)
    (behind : Bytes) :
    chunks size blocks.length (blocks.flatten ++ behind) = blocks := by
  induction blocks with
  | nil => rfl
  | cons block rest inductionHypothesis =>
      rw [List.forall_mem_cons] at sized
      rw [List.length_cons, chunks_succ, List.flatten_cons, List.append_assoc,
        List.take_left' sized.1, List.drop_left' sized.1, inductionHypothesis sized.2]

end Bytes
end Spead
