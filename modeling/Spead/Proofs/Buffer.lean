import Spead.Buffer

/-!
Buffers as the bytes that they hold.
-/

namespace Spead
namespace Buffer

theorem toList_zeroStorage (length : Nat) :
    (zeroStorage length).data.toList = List.replicate length 0 := by
  fun_induction zeroStorage length with
  | case1 => rfl
  | case2 length occupied half even inductionHypothesis =>
      have doubled : length = length / 2 + length / 2 := by omega
      simp only [half, ByteArray.data_append, Array.toList_append, inductionHypothesis]
      rw [List.replicate_append_replicate, ← doubled]
  | case3 length occupied half odd inductionHypothesis =>
      have doubled : length = length / 2 + length / 2 + 1 := by omega
      simp only [half, ByteArray.data_push, ByteArray.data_append, Array.toList_push,
        Array.toList_append, inductionHypothesis]
      rw [List.replicate_append_replicate, ← List.replicate_succ', ← doubled]

@[simp] theorem toBytes_zeros (length : Nat) :
    (zeros length).toBytes = List.replicate length 0 :=
  toList_zeroStorage length

theorem length_toBytes (buffer : Buffer) : buffer.toBytes.length = buffer.length :=
  Array.length_toList

/-- A slice takes the place of as many bytes. -/
theorem toBytes_write (buffer : Buffer) (offset : Nat) (slice : Bytes) :
    (buffer.write offset slice).toBytes =
      buffer.toBytes.take offset ++ slice ++ buffer.toBytes.drop (offset + slice.length) := by
  simp [write, toBytes, ByteArray.copySlice, List.take_of_length_le]

theorem length_toBytes_write
    (buffer : Buffer) {offset : Nat} {slice : Bytes}
    (fits : offset + slice.length ≤ buffer.toBytes.length) :
    (buffer.write offset slice).toBytes.length = buffer.toBytes.length := by
  rw [toBytes_write]
  simp only [List.length_append, List.length_take, List.length_drop]
  omega

/-- A position of the slice has the byte of the slice, every other position what it had. -/
theorem getElem?_toBytes_write
    (buffer : Buffer) {offset : Nat} {slice : Bytes}
    (fits : offset + slice.length ≤ buffer.toBytes.length) (position : Nat) :
    (buffer.write offset slice).toBytes[position]? =
      if offset ≤ position ∧ position < offset + slice.length then
        slice[position - offset]?
      else
        buffer.toBytes[position]? := by
  rw [toBytes_write]
  have before : (buffer.toBytes.take offset).length = offset := by
    rw [List.length_take]
    omega
  split
  · next inside =>
      rw [List.append_assoc, List.getElem?_append_right (by omega), before,
        List.getElem?_append_left (by omega)]
  · next outside =>
      by_cases earlier : position < offset
      · rw [List.append_assoc, List.getElem?_append_left (by omega),
          List.getElem?_take_of_lt earlier]
      · rw [List.getElem?_append_right (by rw [List.length_append]; omega), List.length_append,
          before, List.getElem?_drop]
        congr 1
        omega

end Buffer
end Spead
