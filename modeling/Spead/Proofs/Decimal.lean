import Spead.Decimal.Reading

/-!
Numbers and texts read back as they were written.
-/

namespace Spead

theorem Bytes.toText?_ofText (text : String) : Bytes.toText? (Bytes.ofText text) = some text := by
  have valid : text.toByteArray.IsValidUTF8 := text.isValidUTF8
  simp only [Bytes.toText?, Bytes.ofText, Array.toArray_toList, String.toUTF8_eq_toByteArray,
    String.fromUTF8?, dif_pos valid]
  rfl

namespace Decimal

theorem digits_isDigit (value : Nat) : ∀ digit ∈ Nat.toDigits 10 value, digit.isDigit = true := by
  intro digit member
  exact Nat.isDigit_of_mem_toDigits (by decide) (by decide) member

/-- The digits of a number spell it. -/
theorem readDigits?_toDigits (value : Nat) : readDigits? (Nat.toDigits 10 value) = some value := by
  have allDigits : (Nat.toDigits 10 value).all Char.isDigit = true :=
    List.all_eq_true.2 (digits_isDigit value)
  have spelled := Nat.ofDigitChars_ten_toDigits (n := value)
  rw [Nat.ofDigitChars_eq_foldl] at spelled
  unfold readDigits?
  rw [if_neg (by simp [allDigits, Nat.toDigits_ne_nil])]
  simpa [Nat.mul_comm] using spelled

theorem readBelow?_toDigits {limit value : Nat} (small : value < limit) :
    readBelow? limit (Nat.toDigits 10 value) = some value := by
  have unsigned : ∀ rest, Nat.toDigits 10 value ≠ '+' :: rest := by
    intro rest signed
    have isDigit := digits_isDigit value '+' (by rw [signed]; exact List.mem_cons_self)
    revert isDigit
    decide
  unfold readBelow?
  split
  · next rest signed => exact absurd signed (unsigned rest)
  · simp [readDigits?_toDigits, small]

theorem readWord?_toDigits {value : Nat} (small : value < wordLimit) :
    readWord? (Nat.toDigits 10 value) = some value :=
  readBelow?_toDigits small

end Decimal
end Spead
