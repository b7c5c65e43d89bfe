import Spead.Proofs.Bytes

/-!
Strings of bits.

Numbers and bytes are spelled with their most significant bit first. A number of several fields is
spelled field by field, and bytes are spelled like the number that they stand for.
-/

namespace Spead
namespace Bits

def ofNat : (count value : Nat) → List Bool
  | 0, _ => []
  | count + 1, value => value.testBit count :: ofNat count value

def toNat (bits : List Bool) : Nat :=
  bits.foldl (fun value bit => value * 2 + bit.toNat) 0

def ofBytes (bytes : Bytes) : List Bool :=
  bytes.flatMap fun byte => ofNat 8 byte.toNat

/-! ## Numbers -/

@[simp] theorem length_ofNat (count value : Nat) : (ofNat count value).length = count := by
  induction count with
  | zero => rfl
  | succ count inductionHypothesis => rw [ofNat, List.length_cons, inductionHypothesis]

@[simp] theorem ofNat_zero (count : Nat) : ofNat count 0 = List.replicate count false := by
  induction count with
  | zero => rfl
  | succ count inductionHypothesis =>
      rw [ofNat, Nat.zero_testBit, inductionHypothesis, List.replicate_succ]

/-- A number is spelled with its high bits in front. -/
theorem ofNat_add (high low value : Nat) :
    ofNat (high + low) value = ofNat high (value / 2 ^ low) ++ ofNat low value := by
  induction high with
  | zero =>
      rw [Nat.zero_add]
      rfl
  | succ high inductionHypothesis =>
      rw [Nat.succ_add, ofNat, ofNat, inductionHypothesis, Nat.testBit_div_two_pow,
        Nat.add_comm high low, List.cons_append]

/-- Bits above those that are spelled do not matter. -/
theorem ofNat_mod {count width : Nat} (covered : count ≤ width) (value : Nat) :
    ofNat count (value % 2 ^ width) = ofNat count value := by
  induction count with
  | zero => rfl
  | succ count inductionHypothesis =>
      have inside : count < width := covered
      rw [ofNat, ofNat, inductionHypothesis (Nat.le_of_lt inside), Nat.testBit_mod_two_pow,
        decide_eq_true inside, Bool.true_and]

/-- Two fields joined to one number. -/
theorem ofNat_joined (high low front back : Nat) :
    ofNat (high + low) (front * 2 ^ low + back % 2 ^ low) = ofNat high front ++ ofNat low back := by
  have small : back % 2 ^ low < 2 ^ low := Nat.mod_lt _ (Nat.two_pow_pos low)
  have quotient : (front * 2 ^ low + back % 2 ^ low) / 2 ^ low = front := by
    rw [Nat.add_comm, Nat.add_mul_div_right _ _ (Nat.two_pow_pos low), Nat.div_eq_of_lt small,
      Nat.zero_add]
  have remainder : (front * 2 ^ low + back % 2 ^ low) % 2 ^ low = back % 2 ^ low := by
    rw [Nat.add_comm, Nat.add_mul_mod_self_right, Nat.mod_mod]
  rw [ofNat_add, quotient, ← ofNat_mod (Nat.le_refl low) (front * 2 ^ low + back % 2 ^ low),
    remainder, ofNat_mod (Nat.le_refl low)]

theorem toNat_append (front back : List Bool) :
    toNat (front ++ back) = toNat front * 2 ^ back.length + toNat back := by
  induction back using List.reverseRecOn with
  | nil => simp [toNat]
  | append_singleton back bit inductionHypothesis =>
      simp only [toNat, List.foldl_append, List.foldl_cons, List.foldl_nil] at *
      rw [inductionHypothesis, List.length_append, List.length_singleton, pow_succ]
      ring

/-- A field is the number of its two parts, the high one first. -/
theorem toNat_take_add {bits : List Bool} {high low : Nat} (enough : high + low ≤ bits.length) :
    toNat (bits.take (high + low)) =
      toNat (bits.take high) * 2 ^ low + toNat ((bits.drop high).take low) := by
  have length : ((bits.drop high).take low).length = low := by
    rw [List.length_take, List.length_drop]
    omega
  rw [List.take_add, toNat_append, length]

theorem toNat_lt (bits : List Bool) : toNat bits < 2 ^ bits.length := by
  induction bits using List.reverseRecOn with
  | nil => decide
  | append_singleton bits bit inductionHypothesis =>
      have single : toNat [bit] = bit.toNat := by simp [toNat]
      have small : bit.toNat < 2 := Bool.toNat_lt bit
      rw [toNat_append, single, List.length_append, List.length_singleton, Nat.pow_one,
        Nat.pow_succ]
      omega

theorem toNat_take_lt (bits : List Bool) (count : Nat) : toNat (bits.take count) < 2 ^ count :=
  (toNat_lt _).trans_le (Nat.pow_le_pow_right Nat.zero_lt_two (List.length_take_le _ _))

theorem toNat_ofNat (count value : Nat) : toNat (ofNat count value) = value % 2 ^ count := by
  induction count with
  | zero => simp [ofNat, toNat, Nat.mod_one]
  | succ count inductionHypothesis =>
      have head : ofNat (count + 1) value = [value.testBit count] ++ ofNat count value := rfl
      have single (bit : Bool) : toNat [bit] = bit.toNat := by simp [toNat]
      rw [head, toNat_append, inductionHypothesis, length_ofNat, single, Nat.mod_pow_succ,
        Nat.toNat_testBit]
      ring

/-! ## Bytes -/

@[simp] theorem ofBytes_append (front back : Bytes) :
    ofBytes (front ++ back) = ofBytes front ++ ofBytes back :=
  List.flatMap_append

@[simp] theorem length_ofBytes (bytes : Bytes) : (ofBytes bytes).length = bytes.length * 8 := by
  simp [ofBytes, List.length_flatMap, List.map_const']

/-- Bytes are spelled like their number. -/
theorem ofBytes_eq (bytes : Bytes) :
    ofBytes bytes = ofNat (bytes.length * 8) (Bytes.toNat bytes) := by
  induction bytes using List.reverseRecOn with
  | nil => rfl
  | append_singleton bytes byte inductionHypothesis =>
      have small : byte.toNat % 2 ^ 8 = byte.toNat := Nat.mod_eq_of_lt byte.toNat_lt
      have whole :
          Bytes.toNat (bytes ++ [byte]) = Bytes.toNat bytes * 2 ^ 8 + byte.toNat % 2 ^ 8 := by
        rw [Bytes.toNat_append, Bytes.toNat_singleton, small]
        rfl
      rw [ofBytes_append, inductionHypothesis, whole, List.length_append, List.length_singleton,
        Nat.add_one_mul, ofNat_joined]
      simp [ofBytes]

theorem ofBytes_injective {left right : Bytes} (same : ofBytes left = ofBytes right) :
    left = right := by
  have lengths := congrArg List.length same
  rw [length_ofBytes, length_ofBytes] at lengths
  have equal : left.length = right.length := by omega
  have numbers := congrArg toNat same
  have modulus (bytes : Bytes) : 2 ^ (bytes.length * 8) = 256 ^ bytes.length := by
    rw [Nat.mul_comm, Nat.pow_mul]
  rw [ofBytes_eq, ofBytes_eq, toNat_ofNat, toNat_ofNat, modulus, modulus,
    Nat.mod_eq_of_lt (Bytes.toNat_lt left), Nat.mod_eq_of_lt (Bytes.toNat_lt right)] at numbers
  rw [← Bytes.bigEndian_toNat left, ← Bytes.bigEndian_toNat right, equal, numbers]

theorem ofBytes_bigEndian (width value : Nat) :
    ofBytes (Bytes.bigEndian width value) = ofNat (width * 8) value := by
  have modulus : 256 ^ width = 2 ^ (width * 8) := by
    rw [Nat.mul_comm, Nat.pow_mul]
  rw [ofBytes_eq, Bytes.length_bigEndian, Bytes.toNat_bigEndian, modulus,
    ofNat_mod (Nat.le_refl _)]

theorem ofBytes_drop (bytes : Bytes) (count : Nat) :
    ofBytes (bytes.drop count) = (ofBytes bytes).drop (count * 8) := by
  by_cases inside : count ≤ bytes.length
  · have whole : ofBytes bytes = ofBytes (bytes.take count) ++ ofBytes (bytes.drop count) := by
      rw [← ofBytes_append, List.take_append_drop]
    have front : (ofBytes (bytes.take count)).length = count * 8 := by
      rw [length_ofBytes, List.length_take_of_le inside]
    rw [whole, List.drop_left' front]
  · have nothing : (ofBytes bytes).length ≤ count * 8 := by
      rw [length_ofBytes]
      omega
    rw [List.drop_eq_nil_of_le (by omega), List.drop_eq_nil_of_le nothing]
    rfl

theorem ofBytes_take (bytes : Bytes) (count : Nat) :
    ofBytes (bytes.take count) = (ofBytes bytes).take (count * 8) := by
  by_cases inside : count ≤ bytes.length
  · have whole : ofBytes bytes = ofBytes (bytes.take count) ++ ofBytes (bytes.drop count) := by
      rw [← ofBytes_append, List.take_append_drop]
    have front : (ofBytes (bytes.take count)).length = count * 8 := by
      rw [length_ofBytes, List.length_take_of_le inside]
    rw [whole, List.take_left' front]
  · have nothing : (ofBytes bytes).length ≤ count * 8 := by
      rw [length_ofBytes]
      omega
    rw [List.take_of_length_le (by omega), List.take_of_length_le nothing]

end Bits
end Spead
