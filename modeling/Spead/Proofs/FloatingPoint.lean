import Mathlib.Algebra.Order.Field.Power
import Mathlib.Data.Rat.Cast.Order
import Mathlib.Tactic.FieldSimp
import Mathlib.Tactic.Linarith
import Mathlib.Tactic.Positivity
import Spead.Bytes
import Spead.FloatingPoint

/-!
Numbers that a format represents exactly.

Rounding looks at a number only, not at the fraction that it is given as, and it leaves the numbers
of the format alone. A number of 32 bits is therefore one of 64 bits as well, and finds its way
back.
-/

namespace Spead

/-! ## Fractions -/

theorem scaleFraction_pos
    {base numerator denominator : Nat} (positive : 0 < base) (nonzero : 0 < denominator)
    (exponent : Int) : 0 < (scaleFraction base exponent numerator denominator).2 := by
  unfold scaleFraction
  split
  · exact Nat.mul_pos nonzero (Nat.pow_pos positive)
  · exact nonzero

theorem scaleFraction_ratio
    (base : Nat) (positive : 0 < base) (exponent : Int) (numerator denominator : Nat) :
    ((scaleFraction base exponent numerator denominator).1 : ℚ) /
        (scaleFraction base exponent numerator denominator).2 =
      numerator / denominator * (base : ℚ) ^ exponent := by
  have nonzero : (base : ℚ) ≠ 0 := by
    exact_mod_cast positive.ne'
  unfold scaleFraction
  split
  · next negative =>
      obtain ⟨places, rfl⟩ : ∃ places : Nat, exponent = -places :=
        ⟨exponent.natAbs, by omega⟩
      rw [Int.natAbs_neg, Int.natAbs_natCast, zpow_neg, zpow_natCast]
      push_cast
      rw [div_mul_eq_div_div, ← div_eq_mul_inv]
  · next negative =>
      obtain ⟨places, rfl⟩ : ∃ places : Nat, exponent = places :=
        ⟨exponent.natAbs, by omega⟩
      rw [Int.natAbs_natCast, zpow_natCast]
      push_cast
      rw [mul_div_right_comm]

/-- A whole number is not rounded. -/
theorem roundHalfEven_of_ratio
    {numerator denominator whole : Nat} (nonzero : 0 < denominator)
    (ratio : (numerator : ℚ) / denominator = whole) :
    roundHalfEven numerator denominator = whole := by
  have exact : numerator = whole * denominator := by
    have denominator_ne : (denominator : ℚ) ≠ 0 := by
      exact_mod_cast nonzero.ne'
    rw [div_eq_iff denominator_ne] at ratio
    exact_mod_cast ratio
  unfold roundHalfEven
  simp only [exact, Nat.mul_mod_left, Nat.mul_div_cancel _ nonzero]
  rw [if_pos (by omega)]

namespace FloatFormat

/-- The power of two below a fraction. -/
theorem floorLog_spec
    {numerator denominator : Nat} (positive : 0 < numerator) (nonzero : 0 < denominator) :
    (2 : ℚ) ^ floorLog numerator denominator ≤ numerator / denominator ∧
      (numerator : ℚ) / denominator < 2 ^ (floorLog numerator denominator + 1) := by
  have two : (2 : ℚ) ≠ 0 := by norm_num
  have denominator_pos : (0 : ℚ) < denominator := by
    exact_mod_cast nonzero
  have numeratorLow : (2 : ℚ) ^ (numerator.log2 : Int) ≤ numerator := by
    rw [zpow_natCast]
    exact_mod_cast Nat.log2_self_le positive.ne'
  have numeratorHigh : (numerator : ℚ) < 2 ^ ((numerator.log2 : Int) + 1) := by
    rw [← Nat.cast_succ, zpow_natCast]
    exact_mod_cast Nat.lt_log2_self (n := numerator)
  have denominatorLow : (2 : ℚ) ^ (denominator.log2 : Int) ≤ denominator := by
    rw [zpow_natCast]
    exact_mod_cast Nat.log2_self_le nonzero.ne'
  have denominatorHigh : (denominator : ℚ) < 2 ^ ((denominator.log2 : Int) + 1) := by
    rw [← Nat.cast_succ, zpow_natCast]
    exact_mod_cast Nat.lt_log2_self (n := denominator)
  unfold floorLog
  dsimp only
  generalize guessed : (numerator.log2 : Int) - denominator.log2 = guess
  have scaled := scaleFraction_ratio 2 (by decide) (-guess) numerator denominator
  have unit_pos : (0 : ℚ) < (scaleFraction 2 (-guess) numerator denominator).2 := by
    exact_mod_cast scaleFraction_pos (by decide) nonzero (-guess)
  rw [Nat.cast_two, zpow_neg, ← div_eq_mul_inv] at scaled
  have power_pos : (0 : ℚ) < 2 ^ guess := zpow_pos (by norm_num) _
  -- The guess is right or one too large.
  have below : (2 : ℚ) ^ (guess - 1) ≤ numerator / denominator := by
    rw [le_div_iff₀ denominator_pos]
    calc (2 : ℚ) ^ (guess - 1) * denominator
        ≤ 2 ^ (guess - 1) * 2 ^ ((denominator.log2 : Int) + 1) := by gcongr
      _ = 2 ^ (numerator.log2 : Int) := by
          rw [← zpow_add₀ two]
          congr 1
          omega
      _ ≤ numerator := numeratorLow
  have above : (numerator : ℚ) / denominator < 2 ^ (guess + 1) := by
    rw [div_lt_iff₀ denominator_pos]
    calc (numerator : ℚ) < 2 ^ ((numerator.log2 : Int) + 1) := numeratorHigh
      _ = 2 ^ (guess + 1) * 2 ^ (denominator.log2 : Int) := by
          rw [← zpow_add₀ two]
          congr 1
          omega
      _ ≤ 2 ^ (guess + 1) * denominator := by gcongr
  split
  · next small =>
      have less : (numerator : ℚ) / denominator < 2 ^ guess := by
        rw [← div_lt_one power_pos, ← scaled, div_lt_one unit_pos]
        exact_mod_cast small
      exact ⟨below, by rwa [sub_add_cancel]⟩
  · next large =>
      have more : (2 : ℚ) ^ guess ≤ numerator / denominator := by
        rw [← one_le_div power_pos, ← scaled, one_le_div unit_pos]
        exact_mod_cast Nat.le_of_not_lt large
      exact ⟨more, above⟩

/-! ## Words -/

section Words

variable (format : FloatFormat)

/-- The word, without sign, of `significand * 2 ^ place`. The leading digit of a significand of
full length counts into the exponent field. -/
def finiteWord (significand : Nat) (place : Int) : Nat :=
  (place - format.leastExponent).toNat * 2 ^ format.fractionBits + significand

/-- The form in which a format holds finite numbers: the significand has all digits, or stands at
the least exponent. -/
structure Holds (significand : Nat) (place : Int) : Prop where
  narrow : significand < 2 ^ (format.fractionBits + 1)
  least : format.leastExponent ≤ place
  full : place = format.leastExponent ∨ 2 ^ format.fractionBits ≤ significand
  finite : format.finiteWord significand place < format.infinity

variable {format}

theorem infinity_add_le (payload : Nat) (narrow : payload < 2 ^ format.fractionBits) :
    format.infinity + payload < format.signBit := by
  have top : format.topExponent + 1 = 2 ^ format.exponentBits :=
    Nat.sub_add_cancel (Nat.two_pow_pos _)
  have whole : format.signBit = format.infinity + 2 ^ format.fractionBits := by
    rw [signBit, infinity, Nat.add_comm, Nat.pow_add, ← top, Nat.add_mul, Nat.one_mul]
  omega

theorem infinity_lt : format.infinity < format.signBit :=
  infinity_add_le 0 (Nat.two_pow_pos _)

theorem withSign_lt
    (negative : Bool) {magnitude : Nat} (small : magnitude < format.signBit) :
    format.withSign negative magnitude < 2 * format.signBit := by
  unfold withSign
  split <;> omega

theorem decode_withSign
    (negative : Bool) {magnitude : Nat} (small : magnitude < format.signBit) :
    format.decode (format.withSign negative magnitude) =
      if magnitude / 2 ^ format.fractionBits = format.topExponent then
        if magnitude % 2 ^ format.fractionBits = 0 then
          .infinite negative
        else
          .nan negative (magnitude % 2 ^ format.fractionBits)
      else if magnitude / 2 ^ format.fractionBits = 0 then
        .finite negative (magnitude % 2 ^ format.fractionBits) format.leastExponent
      else
        .finite negative (2 ^ format.fractionBits + magnitude % 2 ^ format.fractionBits)
          (format.leastExponent + (magnitude / 2 ^ format.fractionBits : Nat) - 1) := by
  have sign : (decide (format.signBit ≤
      format.withSign negative magnitude % (2 * format.signBit))) = negative := by
    rw [Nat.mod_eq_of_lt (withSign_lt negative small)]
    cases negative with
    | false => simpa [withSign] using small
    | true => simp [withSign]
  have rest : format.withSign negative magnitude % format.signBit = magnitude := by
    cases negative with
    | false => exact Nat.mod_eq_of_lt small
    | true =>
        rw [withSign, if_pos rfl, Nat.add_mod_left, Nat.mod_eq_of_lt small]
  unfold decode
  dsimp only
  rw [rest, sign]

theorem decode_infinity (format : FloatFormat) (negative : Bool) :
    format.decode (format.withSign negative format.infinity) = .infinite negative := by
  rw [decode_withSign negative infinity_lt, infinity, Nat.mul_div_cancel _ (Nat.two_pow_pos _),
    if_pos rfl, Nat.mul_mod_left, if_pos rfl]

theorem decode_nan
    (negative : Bool) {payload : Nat} (positive : 0 < payload)
    (narrow : payload < 2 ^ format.fractionBits) :
    format.decode (format.withSign negative (format.infinity + payload)) =
      .nan negative payload := by
  have field : (format.infinity + payload) / 2 ^ format.fractionBits = format.topExponent := by
    rw [infinity, Nat.mul_comm, Nat.mul_add_div (Nat.two_pow_pos _), Nat.div_eq_of_lt narrow,
      Nat.add_zero]
  have fraction : (format.infinity + payload) % 2 ^ format.fractionBits = payload := by
    rw [infinity, Nat.mul_add_mod_of_lt narrow]
  rw [decode_withSign negative (infinity_add_le payload narrow), field, if_pos rfl, fraction,
    if_neg positive.ne']

theorem finiteWord_lt
    {significand : Nat} {place : Int} (held : format.Holds significand place) :
    format.finiteWord significand place < format.signBit :=
  held.finite.trans infinity_lt

theorem decode_finite
    (negative : Bool) {significand : Nat} {place : Int} (held : format.Holds significand place) :
    format.decode (format.withSign negative (format.finiteWord significand place)) =
      .finite negative significand place := by
  have unit := Nat.two_pow_pos format.fractionBits
  have narrow := held.narrow
  have least := held.least
  have finite := held.finite
  rw [Nat.pow_succ] at narrow
  rw [decode_withSign negative (finiteWord_lt held)]
  unfold finiteWord infinity at *
  by_cases short : significand < 2 ^ format.fractionBits
  · have atLeast : place = format.leastExponent := held.full.resolve_right (by omega)
    subst atLeast
    rw [Int.sub_self, Int.toNat_zero, Nat.zero_mul, Nat.zero_add] at finite ⊢
    have top : 0 ≠ format.topExponent := by
      intro none
      rw [← none, Nat.zero_mul] at finite
      exact Nat.not_lt_zero _ finite
    rw [Nat.div_eq_of_lt short, if_neg top, if_pos rfl, Nat.mod_eq_of_lt short]
  · obtain ⟨steps, rfl⟩ : ∃ steps : Nat, place = format.leastExponent + steps :=
      ⟨(place - format.leastExponent).toNat, by omega⟩
    obtain ⟨fraction, rfl⟩ : ∃ fraction, significand = 2 ^ format.fractionBits + fraction :=
      ⟨significand - 2 ^ format.fractionBits, by omega⟩
    have small : fraction < 2 ^ format.fractionBits := by omega
    have joined :
        (format.leastExponent + steps - format.leastExponent).toNat * 2 ^ format.fractionBits +
            (2 ^ format.fractionBits + fraction) =
          (steps + 1) * 2 ^ format.fractionBits + fraction := by
      rw [add_sub_cancel_left, Int.toNat_natCast, Nat.add_one_mul, Nat.add_assoc]
    have field : ((steps + 1) * 2 ^ format.fractionBits + fraction) / 2 ^ format.fractionBits =
        steps + 1 := by
      rw [Nat.mul_comm, Nat.mul_add_div unit, Nat.div_eq_of_lt small, Nat.add_zero]
    have top : steps + 1 ≠ format.topExponent := by
      intro same
      rw [joined, same] at finite
      omega
    rw [joined, field, if_neg top, if_neg (Nat.succ_ne_zero steps), Nat.mul_add_mod_of_lt small]
    congr 1
    omega

/-- Words are read as numbers in the form in which the format holds them. -/
theorem holds_of_decode
    {word significand : Nat} {negative : Bool} {place : Int}
    (read : format.decode word = .finite negative significand place) :
    format.Holds significand place := by
  have unit := Nat.two_pow_pos format.fractionBits
  have small : word % format.signBit / 2 ^ format.fractionBits < 2 ^ format.exponentBits := by
    rw [Nat.div_lt_iff_lt_mul unit, Nat.mul_comm, ← Nat.pow_add]
    exact Nat.mod_lt _ (Nat.two_pow_pos _)
  have fraction := Nat.mod_lt (word % format.signBit) unit
  unfold decode at read
  dsimp only at read
  generalize word % format.signBit / 2 ^ format.fractionBits = field at read small
  generalize word % format.signBit % 2 ^ format.fractionBits = rest at read fraction
  split at read
  · split at read <;> cases read
  next notTop =>
    have below : field + 1 ≤ format.topExponent := by
      unfold topExponent at notTop ⊢
      omega
    have scaled := Nat.mul_le_mul_right (2 ^ format.fractionBits) below
    rw [Nat.add_one_mul] at scaled
    split at read
    · next zero =>
        cases read
        constructor
        case narrow =>
          rw [Nat.pow_succ]
          omega
        case least => exact Int.le_refl _
        case full => exact .inl rfl
        case finite =>
          rw [finiteWord, infinity, Int.sub_self, Int.toNat_zero, Nat.zero_mul]
          omega
    · next nonzero =>
        cases read
        have steps : format.leastExponent + (field : Int) - 1 - format.leastExponent =
            (field - 1 : Nat) := by
          omega
        constructor
        case narrow =>
          rw [Nat.pow_succ]
          omega
        case least => omega
        case full => exact .inr (Nat.le_add_right _ _)
        case finite =>
          have last : field * 2 ^ format.fractionBits =
              (field - 1) * 2 ^ format.fractionBits + 2 ^ format.fractionBits := by
            rw [← Nat.add_one_mul, Nat.sub_add_cancel (Nat.pos_of_ne_zero nonzero)]
          rw [finiteWord, infinity, steps, Int.toNat_natCast]
          omega

/-! ## Rounding -/

section Rounding

variable {significand : Nat} {place : Int} (held : format.Holds significand place)

include held

/-- A fraction that the format represents is not rounded. -/
theorem encodeRatio_of_holds
    {numerator denominator : Nat} (nonzero : 0 < denominator)
    (ratio : (numerator : ℚ) / denominator = significand * 2 ^ place) :
    format.encodeRatio numerator denominator = format.finiteWord significand place := by
  have two : (2 : ℚ) ≠ 0 := by norm_num
  have one_lt_two : (1 : ℚ) < 2 := by norm_num
  have power_pos : (0 : ℚ) < 2 ^ place := zpow_pos (by norm_num) _
  unfold encodeRatio
  by_cases zero : numerator = 0
  · have nothing : significand = 0 := by
      rw [zero, Nat.cast_zero, zero_div, eq_comm, mul_eq_zero] at ratio
      exact_mod_cast ratio.resolve_right power_pos.ne'
    have unit := Nat.two_pow_pos format.fractionBits
    have atLeast : place = format.leastExponent := held.full.resolve_right (by omega)
    rw [if_pos zero, finiteWord, nothing, atLeast, Int.sub_self, Int.toNat_zero, Nat.zero_mul]
  · obtain ⟨low, high⟩ := floorLog_spec (Nat.pos_of_ne_zero zero) nonzero
    rw [ratio] at low high
    -- The exponent that rounding chooses is that of the form in which the number is held.
    have notAbove : floorLog numerator denominator - format.fractionBits ≤ place := by
      have narrow : (significand : ℚ) < 2 ^ ((format.fractionBits : Int) + 1) := by
        rw [← Nat.cast_succ, zpow_natCast]
        exact_mod_cast held.narrow
      have between : (2 : ℚ) ^ floorLog numerator denominator <
          2 ^ ((format.fractionBits : Int) + 1 + place) := by
        rw [zpow_add₀ two _ place]
        exact low.trans_lt (mul_lt_mul_of_pos_right narrow power_pos)
      have exponents := (zpow_lt_zpow_iff_right₀ one_lt_two).1 between
      omega
    have notBelow : place = format.leastExponent ∨
        place ≤ floorLog numerator denominator - format.fractionBits := by
      rcases held.full with atLeast | full
      · exact .inl atLeast
      · right
        have wide : (2 : ℚ) ^ (format.fractionBits : Int) ≤ significand := by
          rw [zpow_natCast]
          exact_mod_cast full
        have between : (2 : ℚ) ^ ((format.fractionBits : Int) + place) <
            2 ^ (floorLog numerator denominator + 1) := by
          rw [zpow_add₀ two]
          exact (mul_le_mul_of_nonneg_right wide power_pos.le).trans_lt high
        have exponents := (zpow_lt_zpow_iff_right₀ one_lt_two).1 between
        omega
    have chosen : max (floorLog numerator denominator - format.fractionBits)
        format.leastExponent = place := by
      have least := held.least
      omega
    have scaled := scaleFraction_ratio 2 (by decide) (-place) numerator denominator
    rw [ratio, Nat.cast_two, zpow_neg, mul_assoc, mul_inv_cancel₀ power_pos.ne', mul_one] at scaled
    have rounded :=
      roundHalfEven_of_ratio (scaleFraction_pos (by decide) nonzero (-place)) scaled
    dsimp only
    rw [if_neg zero, chosen, rounded]
    exact Nat.min_eq_right held.finite.le

/-- A number is written in the form in which the format holds it, whatever the form in which it is
given. -/
theorem encode_finite
    (negative : Bool) {given : Nat} {exponent : Int}
    (same : (given : ℚ) * 2 ^ exponent = significand * 2 ^ place) :
    format.encode (.finite negative given exponent) =
      format.withSign negative (format.finiteWord significand place) := by
  have ratio := scaleFraction_ratio 2 (by decide) exponent given 1
  rw [Nat.cast_one, div_one, Nat.cast_two, same] at ratio
  unfold encode
  dsimp only
  rw [encodeRatio_of_holds held (scaleFraction_pos (by decide) Nat.one_pos exponent) ratio]

end Rounding

theorem encodeRatio_le_infinity (numerator denominator : Nat) :
    format.encodeRatio numerator denominator ≤ format.infinity := by
  unfold encodeRatio
  split
  · exact Nat.zero_le _
  · exact Nat.min_le_left _ _

theorem encode_lt (positive : 0 < format.fractionBits) (datum : FloatDatum) :
    format.encode datum < 2 * format.signBit := by
  cases datum with
  | infinite negative => exact withSign_lt negative infinity_lt
  | nan negative payload =>
      have half := Nat.two_pow_pred_mul_two positive
      have rest := Nat.mod_lt payload (Nat.two_pow_pos (format.fractionBits - 1))
      apply withSign_lt negative
      rw [Nat.add_assoc]
      exact infinity_add_le _ (by omega)
  | finite negative significand exponent =>
      exact withSign_lt negative ((encodeRatio_le_infinity _ _).trans_lt infinity_lt)

end Words

/-! ## Equality -/

/-- Numbers and infinity are equal to themselves. -/
theorem equal_self_of_le_infinity
    (format : FloatFormat) {word : Nat} (number : word ≤ format.infinity) :
    format.equal word word = true := by
  have decoded : ∀ negative payload, format.decode word ≠ .nan negative payload := by
    intro negative payload
    have unit := Nat.two_pow_pos format.fractionBits
    have small := Nat.mod_eq_of_lt (number.trans_lt infinity_lt)
    unfold decode
    simp only [small]
    split
    · next top =>
        have least := Nat.div_mul_le_self word (2 ^ format.fractionBits)
        rw [top] at least
        have same : word = format.infinity := Nat.le_antisymm number least
        rw [if_pos]
        · exact nofun
        · rw [same]
          exact Nat.mul_mod_left _ _
    · split <;> exact nofun
  unfold equal
  cases read : format.decode word with
  | nan negative payload => exact absurd read (decoded negative payload)
  | infinite negative => simp
  | finite negative significand place =>
      cases significand <;> simp

/-! ## The two widths -/

theorem convert_binary64_lt (source : FloatFormat) (word : Nat) :
    convert source binary64 word < wordLimit :=
  encode_lt (by decide) _

theorem convert_binary32_lt (source : FloatFormat) (word : Nat) :
    convert source binary32 word < 2 ^ 32 :=
  encode_lt (by decide) _

/-- Numbers of 32 bits are numbers of 64 bits. -/
theorem Holds.widen
    {significand : Nat} {place : Int} (held : binary32.Holds significand place) :
    ∃ wide lower, binary64.Holds wide lower ∧
      (significand : ℚ) * 2 ^ place = wide * 2 ^ lower := by
  have narrow := held.narrow
  have least := held.least
  have finite := held.finite
  have leastNarrow : binary32.leastExponent = -149 := rfl
  have leastWide : binary64.leastExponent = -1074 := rfl
  by_cases zero : significand = 0
  · refine ⟨0, -1074, ?_, by simp [zero]⟩
    constructor
    case narrow => decide
    case least => exact Int.le_refl _
    case full => exact .inl rfl
    case finite => decide
  · -- All digits are moved to the front.
    have low := Nat.log2_self_le zero
    have high := Nat.lt_log2_self (n := significand)
    have digits : significand.log2 < 24 := (Nat.log2_lt zero).2 narrow
    obtain ⟨shift, split⟩ : ∃ shift, 52 = significand.log2 + shift :=
      ⟨52 - significand.log2, by omega⟩
    have power : 2 ^ 52 = 2 ^ significand.log2 * 2 ^ shift := by
      rw [split, Nat.pow_add]
    have front : 2 ^ 52 ≤ significand * 2 ^ shift := by
      rw [power]
      exact Nat.mul_le_mul_right _ low
    have end_lt : significand * 2 ^ shift < 2 ^ 53 := by
      rw [Nat.pow_succ 2 52, power, Nat.mul_right_comm, ← Nat.pow_succ]
      exact Nat.mul_lt_mul_of_pos_right high (Nat.two_pow_pos _)
    refine ⟨significand * 2 ^ shift, place - shift, ?_, ?_⟩
    · rw [finiteWord, infinity, leastNarrow] at finite
      have unitNarrow : 2 ^ binary32.fractionBits = 8388608 := rfl
      have topNarrow : binary32.topExponent = 255 := rfl
      rw [unitNarrow, topNarrow] at finite
      constructor
      case narrow => exact end_lt
      case least => omega
      case full => exact .inr front
      case finite =>
        have steps : (place - shift - -1074).toNat ≤ 2000 := by omega
        calc binary64.finiteWord (significand * 2 ^ shift) (place - shift)
            < 2000 * 2 ^ 52 + 2 ^ 53 :=
              Nat.add_lt_add_of_le_of_lt (Nat.mul_le_mul_right _ steps) end_lt
          _ < binary64.infinity := by decide
    · have two : (2 : ℚ) ≠ 0 := by norm_num
      push_cast
      rw [zpow_sub₀ two, zpow_natCast]
      field_simp

/-- What is read back after a datum has been written. A NaN has become quiet. -/
theorem decode_encode_nan
    (format : FloatFormat) (positive : 0 < format.fractionBits) (negative : Bool)
    (payload : Nat) :
    format.decode (format.encode (.nan negative payload)) =
      .nan negative (2 ^ (format.fractionBits - 1) + payload % 2 ^ (format.fractionBits - 1)) := by
  have half := Nat.two_pow_pred_mul_two positive
  have unit := Nat.two_pow_pos (format.fractionBits - 1)
  have rest := Nat.mod_lt payload unit
  unfold encode
  dsimp only
  rw [Nat.add_assoc]
  exact decode_nan negative (by omega) (by omega)

/-- The leading bits of a payload are the same in both widths. -/
theorem payload_widen_narrow (payload : Nat) :
    (2 ^ 22 + (2 ^ 51 + payload * 2 ^ 52 / 2 ^ 23 % 2 ^ 51) * 2 ^ 23 / 2 ^ 52 % 2 ^ 22) *
          2 ^ 52 / 2 ^ 23 % 2 ^ 51 =
      payload * 2 ^ 52 / 2 ^ 23 % 2 ^ 51 := by
  omega

/-- A number of 64 bits that comes from one of 32 bits survives the way there and back. -/
theorem convert_convert (word : Nat) :
    convert .binary32 .binary64 (convert .binary64 .binary32 (convert .binary32 .binary64 word)) =
      convert .binary32 .binary64 word := by
  unfold convert
  cases read : decode .binary32 word with
  | infinite negative =>
      have wide := decode_infinity .binary64 negative
      have narrow := decode_infinity .binary32 negative
      simp only [alignPayload, encode, wide, narrow]
  | nan negative payload =>
      simp only [alignPayload, decode_encode_nan .binary64 (by decide),
        decode_encode_nan .binary32 (by decide)]
      unfold encode
      exact congrArg (fun kept => withSign _ negative (_ + kept)) (payload_widen_narrow payload)
  | finite negative significand place =>
      have held := holds_of_decode read
      obtain ⟨wide, lower, heldWide, same⟩ := held.widen
      have widened := encode_finite heldWide negative same
      have narrowed := encode_finite held negative same.symm
      simp only [alignPayload, widened, decode_finite negative heldWide, narrowed,
        decode_finite negative held]

end FloatFormat

namespace Binary64

def IsBinary32 (number : Binary64) : Prop :=
  ∃ word, number = ofWord (FloatFormat.convert .binary32 .binary64 word)

theorem toNat_ofWord {word : Nat} (small : word < wordLimit) : (ofWord word).bits.toNat = word :=
  Nat.mod_eq_of_lt small

/-- A number of 32 bits is found again after it has been cut to 32 bits. -/
theorem IsBinary32.convert_convert {number : Binary64} (exact : number.IsBinary32) :
    ofWord (FloatFormat.convert .binary32 .binary64
      (FloatFormat.convert .binary64 .binary32 number.bits.toNat)) = number := by
  obtain ⟨word, rfl⟩ := exact
  rw [toNat_ofWord (FloatFormat.convert_binary64_lt _ _), FloatFormat.convert_convert]

theorem ofWord_toNat (number : Binary64) : ofWord number.bits.toNat = number := by
  rw [ofWord, UInt64.ofNat_toNat]

end Binary64
end Spead
