import Mathlib.Tactic.Linarith
import Mathlib.Tactic.Ring
import Spead.Flavour.Pointer

/-!
Item pointers as words.

A pointer whose id and value fit their fields is got back from its word.
-/

namespace Spead
namespace Pointer

structure Fits (addressBits : Nat) (pointer : Pointer) : Prop where
  id_lt : pointer.id < 2 ^ (63 - addressBits)
  value_lt : pointer.value < 2 ^ addressBits

theorem immediateFlag_eq {addressBits : Nat} (narrow : addressBits < 64) :
    immediateFlag = 2 ^ addressBits * 2 ^ (63 - addressBits) := by
  rw [← Nat.pow_add, immediateFlag]
  congr 1
  omega

theorem Fits.lt_immediateFlag
    {addressBits : Nat} {pointer : Pointer} (fits : pointer.Fits addressBits)
    (narrow : addressBits < 64) :
    pointer.id * 2 ^ addressBits + pointer.value < immediateFlag := by
  have idBound := Nat.mul_le_mul_left (2 ^ addressBits) fits.id_lt
  have valueBound := fits.value_lt
  rw [immediateFlag_eq narrow]
  nlinarith

/-- The fields of a word do not overlap, so that joining their bits is adding them. -/
theorem toNat_toWord
    {addressBits : Nat} {pointer : Pointer} (narrow : addressBits < 64)
    (fits : pointer.Fits addressBits) :
    (pointer.toWord addressBits).toNat =
      pointer.immediate.toNat * immediateFlag + (pointer.id * 2 ^ addressBits + pointer.value) := by
  have upper :
      pointer.immediate.toNat * immediateFlag + pointer.id * 2 ^ addressBits =
        2 ^ addressBits * (pointer.immediate.toNat * 2 ^ (63 - addressBits) + pointer.id) := by
    rw [immediateFlag_eq narrow]
    ring
  have bounded :
      pointer.immediate.toNat * immediateFlag +
        (pointer.id * 2 ^ addressBits + pointer.value) < 2 ^ 64 := by
    have lower := fits.lt_immediateFlag narrow
    have := Bool.toNat_le pointer.immediate
    rw [immediateFlag] at lower ⊢
    omega
  rw [toWord, upper, ← Nat.two_pow_add_eq_or_of_lt fits.value_lt, ← upper, UInt64.toNat_ofNat',
    Nat.add_assoc, Nat.mod_eq_of_lt bounded]

theorem ofWord_toWord
    {addressBits : Nat} {pointer : Pointer} (narrow : addressBits < 64)
    (fits : pointer.Fits addressBits) :
    ofWord addressBits (pointer.toWord addressBits) = pointer := by
  have lower := fits.lt_immediateFlag narrow
  have valueBound := fits.value_lt
  rw [ofWord, toNat_toWord narrow fits]
  rcases pointer with ⟨id, immediate, value⟩
  simp only at lower valueBound ⊢
  have lowBits :
      (immediate.toNat * immediateFlag + (id * 2 ^ addressBits + value)) % immediateFlag =
        id * 2 ^ addressBits + value := by
    rw [Nat.mul_comm, Nat.mul_add_mod, Nat.mod_eq_of_lt lower]
  have idField : (id * 2 ^ addressBits + value) / 2 ^ addressBits = id := by
    rw [Nat.mul_comm, Nat.mul_add_div (Nat.two_pow_pos addressBits),
      Nat.div_eq_of_lt valueBound, Nat.add_zero]
  have valueField :
      (immediate.toNat * immediateFlag + (id * 2 ^ addressBits + value)) % 2 ^ addressBits =
        value := by
    have multiple :
        immediate.toNat * immediateFlag + (id * 2 ^ addressBits + value) =
          2 ^ addressBits * (immediate.toNat * 2 ^ (63 - addressBits) + id) + value := by
      rw [immediateFlag_eq narrow]
      ring
    rw [multiple, Nat.mul_add_mod, Nat.mod_eq_of_lt valueBound]
  rw [lowBits, idField, valueField]
  congr 1
  cases immediate with
  | false => simpa using lower
  | true => simp

theorem fits_ofWord {addressBits : Nat} (narrow : addressBits < 64) (word : UInt64) :
    (ofWord addressBits word).Fits addressBits where
  id_lt := by
    have low : word.toNat % immediateFlag < 2 ^ addressBits * 2 ^ (63 - addressBits) := by
      rw [← immediateFlag_eq narrow]
      exact Nat.mod_lt _ (Nat.two_pow_pos 63)
    exact Nat.div_lt_of_lt_mul low
  value_lt := Nat.mod_lt _ (Nat.two_pow_pos addressBits)

/-- Every word is the one of the pointer that it is taken apart into. -/
theorem toWord_ofWord {addressBits : Nat} (narrow : addressBits < 64) (word : UInt64) :
    (ofWord addressBits word).toWord addressBits = word := by
  have flag :
      (decide (immediateFlag ≤ word.toNat)).toNat * immediateFlag + word.toNat % immediateFlag =
        word.toNat := by
    have bound := word.toNat_lt
    have double : (2 : Nat) ^ 64 = 2 * immediateFlag := rfl
    by_cases immediate : immediateFlag ≤ word.toNat
    · rw [decide_eq_true immediate, Bool.toNat_true, Nat.one_mul,
        Nat.mod_eq_sub_mod immediate, Nat.mod_eq_of_lt (by omega)]
      omega
    · rw [decide_eq_false immediate, Bool.toNat_false, Nat.zero_mul, Nat.zero_add,
        Nat.mod_eq_of_lt (by omega)]
  have fields :
      word.toNat % immediateFlag / 2 ^ addressBits * 2 ^ addressBits +
          word.toNat % 2 ^ addressBits =
        word.toNat % immediateFlag := by
    have multiple : 2 ^ addressBits ∣ immediateFlag :=
      ⟨2 ^ (63 - addressBits), immediateFlag_eq narrow⟩
    rw [← Nat.mod_mod_of_dvd word.toNat multiple]
    exact Nat.div_add_mod' _ _
  apply UInt64.toNat_inj.1
  rw [toNat_toWord narrow (fits_ofWord narrow word)]
  simp only [ofWord, fields, flag]

end Pointer

namespace Flavour

theorem maxId_lt (flavour : Flavour) {id : Nat} (fits : id ≤ flavour.maxId) :
    id < 2 ^ (63 - flavour.addressBits) := by
  have := Nat.two_pow_pos (63 - flavour.addressBits)
  simp only [maxId, idBits] at fits
  omega

theorem maxAddress_pos (flavour : Flavour) : 0 < flavour.maxAddress := by
  have := Nat.pow_le_pow_right (n := 2) (by decide) flavour.addressBits_pos
  unfold maxAddress
  omega

theorem maxAddress_lt (flavour : Flavour) {value : Nat} (fits : value ≤ flavour.maxAddress) :
    value < 2 ^ flavour.addressBits := by
  have := Nat.two_pow_pos flavour.addressBits
  simp only [maxAddress] at fits
  omega

/-- Addresses have at most 56 bits, so that a few of them add up to a word. -/
theorem maxAddress_lt_wordLimit (flavour : Flavour) : 256 * flavour.maxAddress < wordLimit := by
  have narrow : flavour.addressBits ≤ 56 := by
    have := flavour.addressBits_lt
    have := flavour.addressBits_bytes
    omega
  have := Nat.pow_le_pow_right (n := 2) (by decide) narrow
  rw [maxAddress, wordLimit]
  omega

theorem pow_addressBytes (flavour : Flavour) :
    256 ^ flavour.addressBytes = 2 ^ flavour.addressBits := by
  have whole : 8 * (flavour.addressBits / 8) = flavour.addressBits := by
    have := flavour.addressBits_bytes
    omega
  calc 256 ^ flavour.addressBytes = (2 ^ 8) ^ (flavour.addressBits / 8) := rfl
    _ = 2 ^ (8 * (flavour.addressBits / 8)) := (Nat.pow_mul 2 8 _).symm
    _ = 2 ^ flavour.addressBits := by rw [whole]

theorem le_addressBytes_of_fitsImmediate
    {flavour : Flavour} {length : Nat} (fits : flavour.fitsImmediate length = true) :
    length ≤ flavour.addressBytes := by
  unfold fitsImmediate at fits
  split at fits
  · exact Nat.le_of_lt (of_decide_eq_true fits)
  · exact of_decide_eq_true fits

/-- A pointer is encoded exactly if it fits, as the word from which it is decoded. -/
theorem encodePointer_eq_ok
    {flavour : Flavour} {valueField : WireField} {pointer : Pointer} {word : UInt64}
    (encoded : flavour.encodePointer valueField pointer = .ok word) :
    pointer.id ≤ flavour.maxId ∧ pointer.value ≤ flavour.maxAddress ∧
      word = pointer.toWord flavour.addressBits ∧ flavour.decodePointer word = pointer := by
  unfold encodePointer at encoded
  split at encoded
  · cases encoded
  · next idFits =>
      split at encoded
      · cases encoded
      · next valueFits =>
          cases encoded
          have idBound := Nat.not_lt.1 idFits
          have valueBound := Nat.not_lt.1 valueFits
          exact ⟨idBound, valueBound, rfl, Pointer.ofWord_toWord flavour.addressBits_lt
            ⟨flavour.maxId_lt idBound, flavour.maxAddress_lt valueBound⟩⟩

theorem encodePointer_of_le
    {flavour : Flavour} {pointer : Pointer} (idFits : pointer.id ≤ flavour.maxId)
    (valueFits : pointer.value ≤ flavour.maxAddress) (valueField : WireField) :
    flavour.encodePointer valueField pointer = .ok (pointer.toWord flavour.addressBits) := by
  rw [encodePointer, if_neg (Nat.not_lt.2 idFits), if_neg (Nat.not_lt.2 valueFits)]

/-- Addresses have at most 56 bits, which leaves seven for an id. -/
theorem le_maxId (flavour : Flavour) {id : Nat} (small : id < 2 ^ 7) : id ≤ flavour.maxId := by
  have narrow : 7 ≤ flavour.idBits := by
    have := flavour.addressBits_lt
    have := flavour.addressBits_bytes
    unfold idBits
    omega
  have := Nat.pow_le_pow_right (n := 2) (by decide) narrow
  unfold maxId
  omega

theorem addressBits_of
    {addressBits : Nat} {compat : Compat} {flavour : Flavour}
    (found : of addressBits compat = .ok flavour) :
    flavour.addressBits = addressBits := by
  unfold of at found
  split at found
  · split at found
    · cases found
      rfl
    · cases found
  · cases found

theorem of_addressBits (flavour : Flavour) :
    of flavour.addressBits flavour.compat = .ok flavour := by
  unfold of
  rw [dif_pos ⟨flavour.addressBits_pos, flavour.addressBits_lt, flavour.addressBits_bytes⟩,
    dif_pos flavour.compat_width]

/-- The flavour of the same width without deviations. -/
def plain (flavour : Flavour) : Flavour where
  addressBits := flavour.addressBits
  compat := .none
  addressBits_pos := flavour.addressBits_pos
  addressBits_lt := flavour.addressBits_lt
  addressBits_bytes := flavour.addressBits_bytes
  compat_width := fun deviating => absurd rfl deviating

theorem of_addressBits_none (flavour : Flavour) :
    of flavour.addressBits .none = .ok flavour.plain :=
  of_addressBits flavour.plain

end Flavour
end Spead
