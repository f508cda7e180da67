import CueScript.Number.Binary64
import Mathlib.Data.Rat.Cast.Order
import Mathlib.Algebra.Order.Field.Power
import Mathlib.Tactic.Linarith
import Mathlib.Tactic.Ring
import Mathlib.Tactic.NormNum
import Mathlib.Tactic.Positivity

/-!
# The double nearest to a quotient

Rounding to the nearest integer is told by the bounds that its result reaches.  The exponent
of a quotient makes its significand one of 53 bits, unless the quotient is too small for that.

So a quotient is rounded in one of two ways.  From `2 ^ 52` on, the result is an integer, a
multiple of the unit in the last place.  Below, the quotient times a power of two is rounded, and
cutting the result to an integer drops some of its bits.
-/

namespace CueScript

-- Powers are those of the core library, as in the definition of doubles.
attribute [local instance (2000)] instPowNat

/-! ## The nearest integer -/

section Nearest

variable {num den bound : Nat}

/-- A bound is reached from half a unit below it, and just there only if it is even. -/
theorem le_roundHalfEven_iff (positive : 0 < den) (num bound : Nat) :
    bound ≤ roundHalfEven num den ↔
      2 * (bound * den) < 2 * num + den ∨
        2 * (bound * den) = 2 * num + den ∧ bound % 2 = 0 := by
  have parts : den * (num / den) + num % den = num := Nat.div_add_mod num den
  have small : num % den < den := Nat.mod_lt num positive
  unfold roundHalfEven
  simp only
  generalize num / den = quotient at *
  generalize num % den = remainder at *
  rw [Nat.mul_comm] at parts
  -- The result is one of the two integers around, so only a bound at the upper one is in question.
  rcases Nat.lt_trichotomy bound (quotient + 1) with below | rfl | above
  · have reached : bound * den ≤ quotient * den :=
      Nat.mul_le_mul_right den (Nat.le_of_lt_succ below)
    exact iff_of_true (by split_ifs <;> omega) (.inl (by omega))
  · rw [Nat.add_mul, Nat.one_mul]
    split_ifs <;> omega
  · have missed : (quotient + 2) * den ≤ bound * den := Nat.mul_le_mul_right den above
    rw [Nat.add_mul] at missed
    exact iff_of_false (by split_ifs <;> omega) (by omega)

theorem le_roundHalfEven (positive : 0 < den) (reached : bound * den ≤ num) :
    bound ≤ roundHalfEven num den :=
  (le_roundHalfEven_iff positive num bound).mpr (.inl (by omega))

theorem roundHalfEven_le (positive : 0 < den) (within : num ≤ bound * den) :
    roundHalfEven num den ≤ bound := by
  refine Nat.le_of_not_lt fun above => ?_
  have reached := (le_roundHalfEven_iff positive num _).mp above
  rw [Nat.succ_eq_add_one, Nat.add_mul] at reached
  omega

/-- The nearest integer is at most half a unit above. -/
theorem two_mul_roundHalfEven_le (positive : 0 < den) (num : Nat) :
    2 * (roundHalfEven num den * den) ≤ 2 * num + den := by
  have reached := (le_roundHalfEven_iff positive num _).mp (Nat.le_refl _)
  omega

/-- The nearest integer is at most half a unit below. -/
theorem le_two_mul_roundHalfEven (positive : 0 < den) (num : Nat) :
    2 * num ≤ 2 * (roundHalfEven num den * den) + den := by
  have missed := (le_roundHalfEven_iff positive num _).not.mp (Nat.not_succ_le_self _)
  rw [Nat.succ_eq_add_one, Nat.add_mul] at missed
  omega

end Nearest

namespace Binary64

variable {num den : Nat}

/-! ## The exponent -/

/-- Scaling divides a quotient by a power of two. -/
theorem scaleDown_lt_iff (positive : 0 < den) (num bound : Nat) (exponent : Int) :
    (scaleDown num den exponent).1 < bound * (scaleDown num den exponent).2 ↔
      (num : ℚ) / den < bound * 2 ^ exponent := by
  have denPositive : (0 : ℚ) < den := by exact_mod_cast positive
  rw [div_lt_iff₀ denPositive]
  unfold scaleDown
  split
  · next isNatural =>
      obtain ⟨power, rfl⟩ := Int.eq_ofNat_of_zero_le isNatural
      rw [zpow_natCast, Int.toNat_natCast, ← Nat.cast_lt (α := ℚ)]
      push_cast
      rw [mul_assoc, mul_comm (den : ℚ)]
  · next isNegative =>
      obtain ⟨power, rfl⟩ : ∃ power : Nat, exponent = -power :=
        ⟨(-exponent).toNat, by omega⟩
      have powerPositive : (0 : ℚ) < 2 ^ power := by positivity
      rw [zpow_neg, zpow_natCast, Int.neg_neg, Int.toNat_natCast, ← Nat.cast_lt (α := ℚ)]
      push_cast
      rw [mul_right_comm, ← div_eq_mul_inv, lt_div_iff₀ powerPositive]

theorem le_scaleDown_iff (positive : 0 < den) (num bound : Nat) (exponent : Int) :
    bound * (scaleDown num den exponent).2 ≤ (scaleDown num den exponent).1 ↔
      bound * (2 : ℚ) ^ exponent ≤ num / den := by
  rw [← not_lt, scaleDown_lt_iff positive, not_lt]

@[simp]
theorem scaleDown_natCast (power : Nat) : scaleDown num den power = (num, den * 2 ^ power) := by
  rw [scaleDown, if_pos (Int.natCast_nonneg power), Int.toNat_natCast]

theorem scaleDown_neg {power : Nat} (positive : 0 < power) :
    scaleDown num den (-power) = (num * 2 ^ power, den) := by
  rw [scaleDown, if_neg (by omega), Int.neg_neg, Int.toNat_natCast]

/-- The lengths of two numbers in bits tell their quotient up to a factor of four. -/
theorem log2_sub_log2_bounds (numPositive : 0 < num) (denPositive : 0 < den) :
    (2 : ℚ) ^ ((num.log2 : Int) - den.log2 - 1) ≤ num / den ∧
      (num : ℚ) / den < 2 ^ ((num.log2 : Int) - den.log2 + 1) := by
  have two : (2 : ℚ) ≠ 0 := two_ne_zero
  have denCast : (0 : ℚ) < den := by exact_mod_cast denPositive
  have numFrom : (2 : ℚ) ^ num.log2 ≤ num := by
    exact_mod_cast Nat.log2_self_le numPositive.ne'
  have numBelow : (num : ℚ) < 2 ^ (num.log2 + 1) := by exact_mod_cast Nat.lt_log2_self
  have denFrom : (2 : ℚ) ^ den.log2 ≤ den := by
    exact_mod_cast Nat.log2_self_le denPositive.ne'
  have denBelow : (den : ℚ) < 2 ^ (den.log2 + 1) := by exact_mod_cast Nat.lt_log2_self
  constructor
  · rw [le_div_iff₀ denCast]
    calc (2 : ℚ) ^ ((num.log2 : Int) - den.log2 - 1) * den
        ≤ 2 ^ ((num.log2 : Int) - den.log2 - 1) * 2 ^ (den.log2 + 1) := by gcongr
      _ = 2 ^ num.log2 := by
        rw [← zpow_natCast, ← zpow_natCast, ← zpow_add₀ two]
        congr 1
        push_cast
        ring
      _ ≤ num := numFrom
  · rw [div_lt_iff₀ denCast]
    calc (num : ℚ) < 2 ^ (num.log2 + 1) := numBelow
      _ = 2 ^ ((num.log2 : Int) - den.log2 + 1) * 2 ^ den.log2 := by
        rw [← zpow_natCast, ← zpow_natCast, ← zpow_add₀ two]
        congr 1
        push_cast
        ring
      _ ≤ 2 ^ ((num.log2 : Int) - den.log2 + 1) * den := by gcongr

theorem two_zpow_mono {first second : Int} (le : first ≤ second) : (2 : ℚ) ^ first ≤ 2 ^ second :=
  zpow_le_zpow_right₀ one_le_two le

theorem two_pow_mul_zpow (bits : Nat) (exponent : Int) :
    ((2 ^ bits : Nat) : ℚ) * 2 ^ exponent = 2 ^ (bits + exponent) := by
  rw [zpow_add₀ two_ne_zero, zpow_natCast]
  push_cast
  rfl

/-- At the exponent that is chosen before the smallest one is heeded, the significand has
53 bits. -/
theorem exists_fitted (numPositive : 0 < num) (denPositive : 0 < den) :
    ∃ fitted, exponentFor num den = max fitted minExponent ∧
      (2 : ℚ) ^ (52 + fitted) ≤ num / den ∧ (num : ℚ) / den < 2 ^ (53 + fitted) := by
  obtain ⟨reached, within⟩ := log2_sub_log2_bounds numPositive denPositive
  unfold exponentFor
  simp only
  generalize isEstimate : (num.log2 : Int) - den.log2 - 52 = estimate
  have below := scaleDown_lt_iff denPositive num (2 ^ 52) estimate
  rw [two_pow_mul_zpow, Nat.mul_comm] at below
  refine ⟨_, rfl, ?_⟩
  split
  · next isBelow =>
      refine ⟨(two_zpow_mono (by omega)).trans reached,
        (below.mp isBelow).trans_le (two_zpow_mono ?_)⟩
      push_cast
      omega
  · next isReached =>
      refine ⟨?_, within.trans_le (two_zpow_mono (by omega))⟩
      exact_mod_cast not_lt.mp (below.not.mp isReached)

/-- The scaled quotient has at most 53 bits before the point, and it has as many unless the
exponent is the smallest one. -/
theorem exponentFor_fits (numPositive : 0 < num) (denPositive : 0 < den) :
    (scaleDown num den (exponentFor num den)).1 <
        2 ^ 53 * (scaleDown num den (exponentFor num den)).2 ∧
      (exponentFor num den = minExponent ∨
        2 ^ 52 * (scaleDown num den (exponentFor num den)).2 ≤
          (scaleDown num den (exponentFor num den)).1) := by
  obtain ⟨fitted, isExponent, reached, within⟩ := exists_fitted numPositive denPositive
  rw [scaleDown_lt_iff denPositive, le_scaleDown_iff denPositive, two_pow_mul_zpow,
    two_pow_mul_zpow, isExponent]
  constructor
  · refine within.trans_le (two_zpow_mono ?_)
    have larger := le_max_left fitted minExponent
    push_cast
    omega
  · rcases le_total fitted minExponent with small | large
    · exact .inl (max_eq_right small)
    · rw [max_eq_left large]
      exact .inr reached

/-! ## What is rounded -/

/-- A magnitude with a sign. -/
def signed (negative : Bool) (magnitude : Nat) : Int :=
  if negative then -magnitude else magnitude

@[simp]
theorem natAbs_signed (negative : Bool) (magnitude : Nat) :
    (signed negative magnitude).natAbs = magnitude := by
  cases negative <;> simp [signed]

theorem truncate?_finite_natCast (negative : Bool) (significand power : Nat) :
    (finite negative significand power).truncate? =
      some (signed negative (significand * 2 ^ power)) := by
  cases negative <;> simp [truncate?, toFraction?, signed]

theorem truncate?_finite_neg {power : Nat} (positive : 0 < power) (negative : Bool)
    (significand : Nat) :
    (finite negative significand (-power)).truncate? =
      some (signed negative (significand / 2 ^ power)) := by
  have isNegative : ¬ (0 : Int) ≤ -power := by omega
  rw [truncate?, toFraction?, if_neg isNegative, Int.neg_neg, Int.toNat_natCast]
  cases negative <;> simp [signed]

theorem truncate?_finite_zero {power : Nat} (positive : 0 < power) (negative : Bool) :
    (finite negative 0 (-power)).truncate? = some (signed negative 0) := by
  rw [truncate?_finite_neg positive, Nat.zero_div]

theorem truncate?_zero (negative : Bool) : (zero negative).truncate? = some (signed negative 0) :=
  @truncate?_finite_zero 1074 (by decide) negative

/-- The significand with 54 bits stands for the same number as its half does one exponent
higher. -/
theorem truncate?_carry (negative : Bool) (exponent : Int) :
    (finite negative (significandBound / 2) (exponent + 1)).truncate? =
      (finite negative significandBound exponent).truncate? := by
  have halves : significandBound = significandBound / 2 * 2 := rfl
  rcases lt_or_ge exponent 0 with isNegative | isNatural
  · obtain ⟨power, rfl⟩ : ∃ power : Nat, exponent = -((power + 1 : Nat) : Int) :=
      ⟨(-exponent).toNat - 1, by omega⟩
    rw [truncate?_finite_neg power.succ_pos, Nat.pow_succ, Nat.mul_comm, ← Nat.div_div_eq_div_mul]
    rcases Nat.eq_zero_or_pos power with rfl | positive
    · have isZero : -((0 + 1 : Nat) : Int) + 1 = (0 : Nat) := rfl
      rw [isZero, truncate?_finite_natCast, Nat.pow_zero, Nat.mul_one, Nat.div_one]
    · have isPower : -((power + 1 : Nat) : Int) + 1 = -power := by omega
      rw [isPower, truncate?_finite_neg positive]
  · obtain ⟨power, rfl⟩ := Int.eq_ofNat_of_zero_le isNatural
    rw [← Int.natCast_succ, truncate?_finite_natCast, truncate?_finite_natCast, Nat.pow_succ,
      Nat.mul_comm (2 ^ power), ← Nat.mul_assoc, ← halves]

/-- A significand of 54 bits is carried over to the next exponent. -/
theorem ofQuotient_eq (negative : Bool) (numPositive : 0 < num) {scaledNum scaledDen : Nat}
    (isScaled : scaleDown num den (exponentFor num den) = (scaledNum, scaledDen)) :
    ofQuotient negative num den =
      if roundHalfEven scaledNum scaledDen = significandBound then
        if maxExponent < exponentFor num den + 1 then .infinite negative
        else .finite negative (significandBound / 2) (exponentFor num den + 1)
      else
        if maxExponent < exponentFor num den then .infinite negative
        else .finite negative (roundHalfEven scaledNum scaledDen) (exponentFor num den) := by
  rw [ofQuotient, if_neg numPositive.ne']
  -- The steps are taken one at a time: the kernel would compute with the numerals in them.
  extract_lets exponent
  rw [show scaleDown num den exponent = _ from isScaled]
  split
  next isPair =>
    obtain ⟨rfl, rfl⟩ := Prod.mk.inj isPair
    extract_lets rounded
    by_cases carries : rounded = significandBound
    · rw [if_pos carries]
      exact (if_pos carries).symm
    · rw [if_neg carries]
      exact (if_neg carries).symm

/-- A rounded quotient is cut like its rounded significand, unless it is too large. -/
theorem truncate?_ofQuotient (negative : Bool) (numPositive : 0 < num) {scaledNum scaledDen : Nat}
    (isScaled : scaleDown num den (exponentFor num den) = (scaledNum, scaledDen)) :
    (ofQuotient negative num den).truncate? =
      if maxExponent < exponentFor num den ∨ exponentFor num den = maxExponent ∧
          roundHalfEven scaledNum scaledDen = significandBound then none
      else
        (finite negative (roundHalfEven scaledNum scaledDen) (exponentFor num den)).truncate? := by
  rw [ofQuotient_eq negative numPositive isScaled]
  generalize roundHalfEven scaledNum scaledDen = rounded
  generalize exponentFor num den = exponent
  by_cases carries : rounded = significandBound
  · rw [if_pos carries]
    by_cases isLarge : maxExponent < exponent + 1
    · rw [if_pos isLarge, if_pos (by omega)]
      rfl
    · rw [if_neg isLarge, if_neg (by omega), truncate?_carry, carries]
  · rw [if_neg carries]
    by_cases isLarge : maxExponent < exponent
    · rw [if_pos isLarge, if_pos (.inl isLarge)]
      rfl
    · rw [if_neg isLarge, if_neg (by simp [isLarge, carries])]

/-- A rounded quotient that cannot be cut to an integer is too large. -/
theorem ofQuotient_of_truncate?_eq_none
    {negative : Bool} (numPositive : 0 < num)
    (isNone : (ofQuotient negative num den).truncate? = none) :
    ofQuotient negative num den = .infinite negative := by
  have isFinite (significand : Nat) (exponent : Int) :
      (finite negative significand exponent).truncate? ≠ none := by
    rw [truncate?, toFraction?]
    split_ifs <;> simp
  rcases isScaled : scaleDown num den (exponentFor num den) with ⟨scaledNum, scaledDen⟩
  rw [ofQuotient_eq negative numPositive isScaled] at isNone ⊢
  split_ifs at isNone ⊢
  · rfl
  · exact absurd isNone (isFinite _ _)
  · rfl
  · exact absurd isNone (isFinite _ _)

/-! ## The ways of rounding and cutting -/

/-- Half a unit below `2 ^ (top + 54)`, when units are `2 ^ (top + 1)`. -/
def carryBound (top : Nat) : Nat := (2 ^ 54 - 1) * 2 ^ top

/-- Magnitudes from here on are too large for a double. -/
def overflowBound : Nat := carryBound 970

/-- What remains of a quotient of two magnitudes that is rounded to a double and then cut to an
integer: nothing if it is too large; a multiple of the unit in the last place if this unit is an
integer; or else the leading bits of the rounded quotient. -/
inductive Cuts (num den : Nat) : Option Nat → Prop
  | tooLarge (isTooLarge : overflowBound * den ≤ num) : Cuts num den none
  | coarse (power : Nat) (reached : 2 ^ 52 * (den * 2 ^ power) ≤ num)
      (within : num < 2 ^ 53 * (den * 2 ^ power)) (fits : num < overflowBound * den) :
      Cuts num den (some (roundHalfEven num (den * 2 ^ power) * 2 ^ power))
  | fine (power : Nat) (positive : 0 < power) (within : num * 2 ^ power < 2 ^ 53 * den)
      (reached : power = 1074 ∨ 2 ^ 52 * den ≤ num * 2 ^ power) :
      Cuts num den (some (roundHalfEven (num * 2 ^ power) den / 2 ^ power))

/-- Rounding goes beyond the 53 bits that end with the bit for `2 ^ (top + 1)` from half a unit
below the next power of two on. -/
theorem carriesBeyond_iff
    {power : Nat} (top : Nat) (denPositive : 0 < den) (reached : 2 ^ 52 * (den * 2 ^ power) ≤ num)
    (within : num < 2 ^ 53 * (den * 2 ^ power)) :
    top + 1 < power ∨ power = top + 1 ∧ roundHalfEven num (den * 2 ^ power) = 2 ^ 53 ↔
      carryBound top * den ≤ num := by
  have doubled : den * 2 ^ (top + 1) = 2 * (den * 2 ^ top) := by
    rw [Nat.pow_succ, ← Nat.mul_assoc, Nat.mul_comm]
  have grows {first second : Nat} (le : first ≤ second) : den * 2 ^ first ≤ den * 2 ^ second :=
    Nat.mul_le_mul_left den (Nat.pow_le_pow_right Nat.two_pos le)
  rw [carryBound, Nat.mul_assoc, Nat.mul_comm (2 ^ top)]
  rcases Nat.lt_trichotomy power (top + 1) with below | rfl | above
  · have isSmall := grows (Nat.le_of_lt_succ below)
    exact iff_of_false (by omega) (by omega)
  · have positive : 0 < den * 2 ^ (top + 1) := Nat.mul_pos denPositive (Nat.two_pow_pos _)
    have atMost := roundHalfEven_le positive (Nat.le_of_lt within)
    have carries := le_roundHalfEven_iff positive num (2 ^ 53)
    rw [doubled] at atMost carries ⊢
    omega
  · have isLarge := grows (Nat.succ_le_of_lt above)
    rw [Nat.succ_eq_add_one, Nat.pow_succ, ← Nat.mul_assoc, doubled] at isLarge
    exact iff_of_true (.inl above) (by omega)

theorem lt_carryBound_mul (top : Nat) (isSmall : num < (2 ^ 54 - 1) * den) :
    num < carryBound top * den := by
  have isLarge : den ≤ 2 ^ top * den := Nat.le_mul_of_pos_left den (Nat.two_pow_pos top)
  rw [carryBound, Nat.mul_assoc]
  omega

/-- Rounding and cutting go one of the ways there are. -/
theorem cuts_ofQuotient (negative : Bool) (numPositive : 0 < num) (denPositive : 0 < den) :
    ∃ whole, Cuts num den whole ∧
      (ofQuotient negative num den).truncate? = whole.map (signed negative) := by
  obtain ⟨within, reached⟩ := exponentFor_fits numPositive denPositive
  rcases isScaled : scaleDown num den (exponentFor num den) with ⟨scaledNum, scaledDen⟩
  rw [truncate?_ofQuotient negative numPositive isScaled]
  rw [isScaled] at within reached
  rcases lt_or_ge (exponentFor num den) 0 with isNegative | isNatural
  · obtain ⟨power, isExponent⟩ : ∃ power : Nat, exponentFor num den = -power :=
      ⟨(-exponentFor num den).toNat, by omega⟩
    have positive : 0 < power := by omega
    rw [isExponent, scaleDown_neg positive] at isScaled
    obtain ⟨rfl, rfl⟩ := Prod.mk.inj isScaled
    have isSmall : ¬ (maxExponent < exponentFor num den ∨ exponentFor num den = maxExponent ∧
        roundHalfEven (num * 2 ^ power) den = significandBound) := by
      unfold maxExponent
      omega
    rw [if_neg isSmall, isExponent, truncate?_finite_neg positive]
    rw [isExponent, minExponent] at reached
    exact ⟨_, .fine power positive within (reached.imp_left (by omega)), rfl⟩
  · obtain ⟨power, isExponent⟩ := Int.eq_ofNat_of_zero_le isNatural
    rw [isExponent, scaleDown_natCast] at isScaled
    obtain ⟨rfl, rfl⟩ := Prod.mk.inj isScaled
    have reached : 2 ^ 52 * (den * 2 ^ power) ≤ num := by
      refine reached.resolve_left ?_
      rw [isExponent, minExponent]
      omega
    have overflows : 971 < power ∨ power = 971 ∧ roundHalfEven num (den * 2 ^ power) = 2 ^ 53 ↔
        overflowBound * den ≤ num := carriesBeyond_iff 970 denPositive reached within
    rw [isExponent, maxExponent, significandBound]
    by_cases isTooLarge : overflowBound * den ≤ num
    · have isBeyond := overflows.mpr isTooLarge
      exact ⟨none, .tooLarge isTooLarge, if_pos (by omega)⟩
    · have isWithin := overflows.not.mpr isTooLarge
      refine ⟨_, .coarse power reached within (Nat.lt_of_not_le isTooLarge), ?_⟩
      rw [if_neg (by omega), truncate?_finite_natCast]
      rfl

end Binary64

end CueScript
