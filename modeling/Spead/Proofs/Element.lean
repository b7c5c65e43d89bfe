import Spead.Element
import Spead.Proofs.Decimal

/-!
Element types read back from their texts.

The text of a type does not tell the order of a single byte, so that the order of one-byte types
comes back as little-endian.
-/

namespace Spead

theorem ElementKind.ofCode?_code (kind : ElementKind) : ofCode? kind.code = some kind := by
  cases kind <;> decide

theorem ElementKind.size_of_supports
    {kind : ElementKind} {size : Nat} (supported : kind.supports size = true) :
    0 < size ∧ size ≤ 8 := by
  cases kind with
  | bool =>
      have : size = 1 := by simpa [supports] using supported
      omega
  | int =>
      have : size = 1 ∨ size = 2 ∨ size = 4 ∨ size = 8 := by simpa [supports] using supported
      omega
  | uint =>
      have : size = 1 ∨ size = 2 ∨ size = 4 ∨ size = 8 := by simpa [supports] using supported
      omega
  | float =>
      have : size = 4 ∨ size = 8 := by simpa [supports] using supported
      omega

namespace ElementType

/-- The type with the order of a single byte left out of account. -/
def canonical (type : ElementType) : ElementType :=
  if type.size = 1 then type.withOrder .little else type

theorem toElement_canonical (type : ElementType) :
    type.canonical.toElement = type.toElement := by
  unfold canonical
  split <;> rfl

theorem of?_eq_withOrder (type : ElementType) (order : ByteOrder) :
    of? type.kind type.size order = some (type.withOrder order) := by
  unfold of?
  rw [dif_pos type.supported]
  rfl

/-- Types are read back from their texts, up to the order of a single byte. -/
theorem parse?_text (type : ElementType) : parse? type.text = some type.canonical := by
  have small : type.size < wordLimit := by
    have := (ElementKind.size_of_supports type.supported).2
    unfold wordLimit
    omega
  have size := Decimal.readWord?_toDigits small
  have kind := ElementKind.ofCode?_code type.kind
  unfold parse? text canonical
  by_cases single : type.size = 1
  · simp only [if_pos single, String.toList_append, String.toList_ofList,
      Nat.toString_eq_ofList_toDigits, splitOrder, List.cons_append, List.nil_append]
    simp [size, kind, of?_eq_withOrder]
  · simp only [if_neg single, String.toList_append, String.toList_ofList,
      Nat.toString_eq_ofList_toDigits, splitOrder, List.cons_append, List.nil_append]
    cases order : type.order with
    | little =>
        have same : type.withOrder .little = type := by
          rw [← order]
          rfl
        simp [size, kind, of?_eq_withOrder, same]
    | big =>
        have same : type.withOrder .big = type := by
          rw [← order]
          rfl
        simp [size, kind, of?_eq_withOrder, same]

/-- The characters of a type text need no quotes. -/
theorem unquoted_text (type : ElementType) : '\'' ∉ type.text.toList ∧ '"' ∉ type.text.toList := by
  have quoteless {mark : Char} (quote : mark = '\'' ∨ mark = '"') : mark ∉ type.text.toList := by
    have noSign : mark ∉ ['|', '<', '>'] := by rcases quote with rfl | rfl <;> decide
    have noCode : mark ≠ type.kind.code := by
      rcases quote with rfl | rfl <;> cases type.kind <;> decide
    have noDigit : mark.isDigit = false := by rcases quote with rfl | rfl <;> decide
    intro member
    simp only [text, String.toList_append, String.toList_ofList, Nat.toString_eq_ofList_toDigits,
      List.mem_append, List.mem_cons, List.not_mem_nil, or_false] at member
    rcases member with (sign | code) | digit
    · apply noSign
      rw [sign]
      split
      · decide
      · split <;> decide
    · exact noCode code
    · rw [Decimal.digits_isDigit type.size _ digit] at noDigit
      cases noDigit
  exact ⟨quoteless (Or.inl rfl), quoteless (Or.inr rfl)⟩

end ElementType
end Spead
