import Spead.Proofs.FloatingPoint

/-!
How large numbers are.

Rounding does not carry a number far beyond a power of two that it does not exceed, so products of
numbers that are not too large are numbers again. Numbers that are not negative are compared as the
fractions that they stand for.
-/

namespace Spead

/-! ## Rounding -/

theorem roundHalfEven_le
    {numerator denominator bound : Nat} (nonzero : 0 < denominator)
    (small : numerator ≤ bound * denominator) : roundHalfEven numerator denominator ≤ bound := by
  have quotient : numerator / denominator ≤ bound :=
    Nat.div_le_of_le_mul (by rwa [Nat.mul_comm])
  have whole : numerator / denominator = bound → numerator % denominator = 0 := by
    rintro rfl
    have split := Nat.div_add_mod' numerator denominator
    omega
  unfold roundHalfEven
  dsimp only
  split
  · exact quotient
  · next notBelow =>
      have less : numerator / denominator ≠ bound := by
        intro same
        rw [whole same] at notBelow
        omega
      split <;> omega

theorem scaleFraction_le
    {numerator denominator power : Nat} {exponent : Int} (nonzero : 0 < denominator)
    (small : (numerator : ℚ) / denominator * 2 ^ exponent ≤ 2 ^ power) :
    (scaleFraction 2 exponent numerator denominator).1 ≤
      2 ^ power * (scaleFraction 2 exponent numerator denominator).2 := by
  have ratio := scaleFraction_ratio 2 (by decide) exponent numerator denominator
  have unit : (0 : ℚ) < (scaleFraction 2 exponent numerator denominator).2 := by
    exact_mod_cast scaleFraction_pos (by decide) nonzero exponent
  rw [Nat.cast_two] at ratio
  rw [← ratio, div_le_iff₀ unit] at small
  exact_mod_cast small

namespace FloatFormat

variable {format : FloatFormat}

/-- Rounding does not carry a number far beyond a power of two. -/
theorem encodeRatio_le
    (wide : 1 < format.exponentBits) {numerator denominator power : Nat}
    (nonzero : 0 < denominator) (small : numerator ≤ 2 ^ power * denominator) :
    format.encodeRatio numerator denominator ≤
      (power + 2 ^ (format.exponentBits - 1)) * 2 ^ format.fractionBits := by
  unfold encodeRatio
  split
  · exact Nat.zero_le _
  next zero =>
    dsimp only
    obtain ⟨low, high⟩ := floorLog_spec (Nat.pos_of_ne_zero zero) nonzero
    generalize floorLog numerator denominator = leading at low high
    generalize chosen : max (leading - (format.fractionBits : Int)) format.leastExponent = place
    generalize rounded : roundHalfEven (scaleFraction 2 (-place) numerator denominator).1
      (scaleFraction 2 (-place) numerator denominator).2 = significand
    have leading_le : leading ≤ power := by
      have denominator_pos : (0 : ℚ) < denominator := by
        exact_mod_cast nonzero
      have upper : (numerator : ℚ) / denominator ≤ 2 ^ (power : Int) := by
        rw [div_le_iff₀ denominator_pos, zpow_natCast]
        exact_mod_cast small
      exact (zpow_le_zpow_iff_right₀ (by norm_num : (1 : ℚ) < 2)).1 (low.trans upper)
    -- At this place there are no more digits than the format has.
    have scaled : (numerator : ℚ) / denominator * 2 ^ (-place) ≤
        2 ^ (format.fractionBits + 1) := by
      calc (numerator : ℚ) / denominator * 2 ^ (-place)
          ≤ 2 ^ (leading + 1) * 2 ^ (-place) := by gcongr
        _ = 2 ^ (leading + 1 - place) := by
            rw [← zpow_add₀ (by norm_num), sub_eq_add_neg]
        _ ≤ 2 ^ ((format.fractionBits + 1 : Nat) : Int) :=
            zpow_le_zpow_right₀ (by norm_num) (by omega)
        _ = 2 ^ (format.fractionBits + 1) := zpow_natCast _ _
    have narrow : significand ≤ 2 ^ (format.fractionBits + 1) := by
      rw [← rounded]
      exact roundHalfEven_le (scaleFraction_pos (by decide) nonzero _)
        (scaleFraction_le nonzero scaled)
    have steps : (place - format.leastExponent).toNat + 2 ≤
        power + 2 ^ (format.exponentBits - 1) := by
      have least : format.leastExponent =
          2 - ((2 ^ (format.exponentBits - 1) : Nat) : Int) - format.fractionBits := by
        rw [leastExponent]
        norm_cast
      have bias : 2 ^ 1 ≤ 2 ^ (format.exponentBits - 1) :=
        Nat.pow_le_pow_right (by decide) (by omega)
      omega
    calc min format.infinity _
        ≤ (place - format.leastExponent).toNat * 2 ^ format.fractionBits + significand :=
          Nat.min_le_right _ _
      _ ≤ (place - format.leastExponent).toNat * 2 ^ format.fractionBits +
            2 ^ (format.fractionBits + 1) := Nat.add_le_add_left narrow _
      _ = ((place - format.leastExponent).toNat + 2) * 2 ^ format.fractionBits := by
          rw [Nat.add_mul, Nat.pow_succ, Nat.mul_comm 2]
      _ ≤ _ := Nat.mul_le_mul_right _ steps

/-- A word below one of another exponent is a number that is not negative, with at most this
exponent. -/
theorem decode_of_lt
    {word field : Nat} (finite : field ≤ format.topExponent) (more : 1 < field)
    (small : word < field * 2 ^ format.fractionBits) :
    ∃ significand place, format.decode word = .finite false significand place ∧
      place ≤ format.leastExponent + field - 2 := by
  have below : word < format.infinity :=
    small.trans_le (Nat.mul_le_mul_right _ finite)
  have exponent : word / 2 ^ format.fractionBits < field :=
    (Nat.div_lt_iff_lt_mul (Nat.two_pow_pos _)).2 small
  have read := decode_withSign false (below.trans infinity_lt)
  rw [withSign, if_neg Bool.false_ne_true, if_neg (by omega)] at read
  split at read
  · exact ⟨_, _, read, by omega⟩
  · exact ⟨_, _, read, by omega⟩

end FloatFormat

namespace Binary64

open FloatFormat

/-! ## Products -/

/-- Numbers from zero up to a power of two. -/
def UpTo (power : Nat) (number : Binary64) : Prop :=
  ∃ significand place, number.datum = .finite false significand place ∧
    (significand : ℚ) * 2 ^ place ≤ 2 ^ power

variable {left right : Binary64} {power leftPower rightPower : Nat}

theorem upTo_ofWord
    {word : Nat} (small : word < (power + 1023) * 2 ^ binary64.fractionBits)
    (finite : power ≤ 1024) : (ofWord word).UpTo power := by
  have top : power + 1023 ≤ binary64.topExponent := Nat.add_le_add_right finite 1023
  have short : word < wordLimit :=
    calc word < (power + 1023) * 2 ^ binary64.fractionBits := small
      _ ≤ binary64.infinity := Nat.mul_le_mul_right _ top
      _ < wordLimit := by decide
  obtain ⟨significand, place, read, upper⟩ := decode_of_lt top (by omega) small
  have narrow : significand < 2 ^ 53 := (holds_of_decode read).narrow
  have least : binary64.leastExponent = -1074 := rfl
  refine ⟨significand, place, ?_, ?_⟩
  · rw [datum, toNat_ofWord short]
    exact read
  · calc (significand : ℚ) * 2 ^ place
        ≤ 2 ^ (53 : Int) * 2 ^ place := by
          gcongr
          exact_mod_cast narrow.le
      _ = 2 ^ (53 + place) := (zpow_add₀ (by norm_num) _ _).symm
      _ ≤ 2 ^ (power : Int) := zpow_le_zpow_right₀ (by norm_num) (by omega)
      _ = 2 ^ power := zpow_natCast _ _

theorem upTo_ofRatio
    {numerator denominator : Nat} (nonzero : 0 < denominator)
    (small : numerator ≤ 2 ^ power * denominator) (finite : power ≤ 1022) :
    (ofRatio numerator denominator).UpTo (power + 2) := by
  have bias : 2 ^ (binary64.exponentBits - 1) = 1024 := by decide
  have field : power + 2 ^ (binary64.exponentBits - 1) < power + 2 + 1023 := by
    omega
  have unit := Nat.two_pow_pos binary64.fractionBits
  apply upTo_ofWord
  · calc binary64.encodeRatio numerator denominator
        ≤ (power + 2 ^ (binary64.exponentBits - 1)) * 2 ^ binary64.fractionBits :=
          encodeRatio_le (by decide) nonzero small
      _ < (power + 2 + 1023) * 2 ^ binary64.fractionBits :=
          Nat.mul_lt_mul_of_pos_right field unit
  · exact Nat.add_le_add_right finite 2

theorem UpTo.multiply
    (leftSmall : left.UpTo leftPower) (rightSmall : right.UpTo rightPower)
    (finite : leftPower + rightPower ≤ 1022) :
    (left.multiply right).UpTo (leftPower + rightPower + 2) := by
  obtain ⟨leftSignificand, leftPlace, leftRead, leftUpper⟩ := leftSmall
  obtain ⟨rightSignificand, rightPlace, rightRead, rightUpper⟩ := rightSmall
  have nonzero : 0 < (scaleFraction 2 (leftPlace + rightPlace)
      (leftSignificand * rightSignificand) 1).2 :=
    scaleFraction_pos (by decide) Nat.one_pos _
  have product : left.multiply right =
      ofRatio (scaleFraction 2 (leftPlace + rightPlace) (leftSignificand * rightSignificand) 1).1
        (scaleFraction 2 (leftPlace + rightPlace) (leftSignificand * rightSignificand) 1).2 := by
    simp only [Binary64.multiply, leftRead, rightRead, encode, withSign, ofRatio, bne_self_eq_false,
      Bool.false_eq_true, if_false]
  rw [product]
  apply upTo_ofRatio nonzero _ finite
  apply scaleFraction_le Nat.one_pos
  push_cast
  rw [div_one, zpow_add₀ (by norm_num), mul_mul_mul_comm, pow_add]
  gcongr

theorem UpTo.exists_fraction? (small : left.UpTo power) :
    ∃ fraction, left.fraction? = some fraction := by
  obtain ⟨significand, place, read, _⟩ := small
  rw [fraction?, read]
  exact ⟨_, rfl⟩

/-! ## Comparing numbers that are not negative -/

theorem fraction?_eq_some_iff {fraction : Nat × Nat} :
    left.fraction? = some fraction ↔
      ∃ negative significand place, left.datum = .finite negative significand place ∧
        (negative = true → significand = 0) ∧ scaleFraction 2 place significand 1 = fraction := by
  unfold fraction?
  cases left.datum with
  | nan _ _ => simp
  | infinite _ => simp
  | finite negative significand place => cases negative <;> simp

theorem denominator_pos {numerator denominator : Nat}
    (read : left.fraction? = some (numerator, denominator)) : 0 < denominator := by
  obtain ⟨_, significand, place, _, _, scaled⟩ := fraction?_eq_some_iff.1 read
  have positive : 0 < (scaleFraction 2 place significand 1).2 :=
    scaleFraction_pos (by decide) Nat.one_pos place
  rwa [scaled] at positive

theorem less_of_fraction?
    {leftNumerator leftDenominator rightNumerator rightDenominator : Nat}
    (leftRead : left.fraction? = some (leftNumerator, leftDenominator))
    (rightRead : right.fraction? = some (rightNumerator, rightDenominator)) :
    left.less right =
      decide (leftNumerator * rightDenominator < rightNumerator * leftDenominator) := by
  have nothing {place : Int} {numerator denominator : Nat}
      (scaled : scaleFraction 2 place 0 1 = (numerator, denominator)) : numerator = 0 := by
    unfold scaleFraction at scaled
    split at scaled <;> simp_all
  have unsigned (negative : Bool) (magnitude : Nat) (zero : negative = true → magnitude = 0) :
      (if negative then -(magnitude : Int) else magnitude) = magnitude := by
    cases negative with
    | false => rfl
    | true => simp [zero rfl]
  obtain ⟨leftNegative, leftSignificand, leftPlace, leftDatum, leftZero, leftScaled⟩ :=
    fraction?_eq_some_iff.1 leftRead
  obtain ⟨rightNegative, rightSignificand, rightPlace, rightDatum, rightZero, rightScaled⟩ :=
    fraction?_eq_some_iff.1 rightRead
  have leftUnsigned (negative : leftNegative = true) : leftNumerator * rightDenominator = 0 := by
    rw [leftZero negative] at leftScaled
    rw [nothing leftScaled, Nat.zero_mul]
  have rightUnsigned (negative : rightNegative = true) : rightNumerator * leftDenominator = 0 := by
    rw [rightZero negative] at rightScaled
    rw [nothing rightScaled, Nat.zero_mul]
  unfold less
  simp only [leftDatum, rightDatum, leftScaled, rightScaled, unsigned _ _ leftUnsigned,
    unsigned _ _ rightUnsigned, Int.ofNat_lt]

theorem isUnitInterval_iff :
    left.isUnitInterval = true ↔
      ∃ numerator denominator, left.fraction? = some (numerator, denominator) ∧
        numerator ≤ denominator := by
  unfold isUnitInterval
  cases left.fraction? with
  | none => simp
  | some fraction => simp [Prod.ext_iff]

/-- The lesser of two numbers is between zero and one if the second is and the first is not
negative. -/
theorem isUnitInterval_minimum
    {fraction : Nat × Nat} (read : left.fraction? = some fraction)
    (unit : right.isUnitInterval = true) : (left.minimum right).isUnitInterval = true := by
  unfold minimum
  split
  · exact unit
  · next notLess =>
      obtain ⟨numerator, denominator⟩ := fraction
      obtain ⟨bound, whole, boundRead, bound_le⟩ := isUnitInterval_iff.1 unit
      have whole_pos := denominator_pos boundRead
      rw [less_of_fraction? boundRead read, decide_eq_true_iff, Nat.not_lt] at notLess
      have scaled : numerator * whole ≤ denominator * whole := by
        calc numerator * whole ≤ bound * denominator := notLess
          _ ≤ whole * denominator := Nat.mul_le_mul_right _ bound_le
          _ = denominator * whole := Nat.mul_comm _ _
      exact isUnitInterval_iff.2
        ⟨numerator, denominator, read, Nat.le_of_mul_le_mul_right scaled whole_pos⟩

end Binary64
end Spead
