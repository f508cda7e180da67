import CueScript.Proofs.Number.Rounding
import Mathlib.Data.Nat.Size

/-!
# The integer part of a rounded quotient

A quotient of two magnitudes that is rounded to a double and cut to an integer loses its integer
part in two ways: that has more than 53 bits, or the quotient is rounded up to the next integer.
Neither happens to a quotient of a magnitude up to `2 ^ 53`.  In any case the outcome is near to
the quotient, unless that is too large.
-/

namespace CueScript

-- Powers are those of the core library, as in the definition of doubles.
attribute [local instance (2000)] instPowNat

namespace Binary64

variable {num den power : Nat}

/-! ## Quotients whose integer part is kept -/

/-- Whether rounding the quotient of two magnitudes to a double keeps its integer part.  That must
be a double itself.  Below `2 ^ 53`, where the next integer is a double, too, the quotient must
lie more than half a unit in the last place below it.  Where the unit is one, the quotient may be
just in the middle if the integer part is even. -/
structure KeepsWhole (num den : Nat) : Prop where
  fits : num < overflowBound * den
  isDouble : ∃ significand power, significand < 2 ^ 53 ∧ num / den = significand * 2 ^ power
  notRaised : num / den < 2 ^ 53 →
    2 ^ 54 * num + 2 ^ (num / den).size * den < 2 ^ 54 * ((num / den + 1) * den) ∨
      2 ^ 52 ≤ num / den ∧ num / den % 2 = 0 ∧ 2 * num + den = 2 * ((num / den + 1) * den)

theorem size_eq_of_bounds
    {number bits : Nat} (reached : 2 ^ bits ≤ number) (within : number < 2 ^ (bits + 1)) :
    number.size = bits + 1 :=
  Nat.le_antisymm (Nat.size_le.mpr within) (Nat.lt_size.mpr reached)

theorem roundHalfEven_eq_div_iff (positive : 0 < den) :
    roundHalfEven num den = num / den ↔
      2 * num + den < 2 * ((num / den + 1) * den) ∨
        num / den % 2 = 0 ∧ 2 * num + den = 2 * ((num / den + 1) * den) := by
  have atLeast := le_roundHalfEven positive (Nat.div_mul_le_self num den)
  have isAbove := le_roundHalfEven_iff positive num (num / den + 1)
  omega

/-- A rounded multiple of a unit of at least two is the integer part of what was rounded just if
that is such a multiple. -/
theorem roundHalfEven_mul_eq_div_iff (positive : 0 < den) (isCoarse : 0 < power) :
    roundHalfEven num (den * 2 ^ power) * 2 ^ power = num / den ↔ 2 ^ power ∣ num / den := by
  constructor
  · exact fun isWhole => ⟨_, isWhole.symm.trans (Nat.mul_comm _ _)⟩
  · rintro ⟨units, isMultiple⟩
    have unitPositive : 0 < den * 2 ^ power := Nat.mul_pos positive (Nat.two_pow_pos power)
    have isUnits : num / den * den = units * (den * 2 ^ power) := by
      rw [isMultiple]
      ring
    have reached : num / den * den ≤ num := Nat.div_mul_le_self num den
    have missed : num < num / den * den + den := Nat.lt_div_mul_add positive
    have atLeast : units ≤ roundHalfEven num (den * 2 ^ power) :=
      le_roundHalfEven unitPositive (isUnits ▸ reached)
    have isEven : 2 * den ≤ den * 2 ^ power := by
      rw [Nat.mul_comm 2]
      exact Nat.mul_le_mul_left den (Nat.le_self_pow isCoarse.ne' 2)
    have atMost : ¬ units + 1 ≤ roundHalfEven num (den * 2 ^ power) := by
      rw [le_roundHalfEven_iff unitPositive, Nat.add_mul]
      omega
    have isUnit : roundHalfEven num (den * 2 ^ power) = units := by omega
    rw [isUnit, isMultiple, Nat.mul_comm]

/-- A number with the given place of its first bit has 53 bits just if it is a multiple of the
unit in its last place. -/
theorem exists_significand_iff
    {number : Nat} (reached : 2 ^ 52 * 2 ^ power ≤ number) (within : number < 2 ^ 53 * 2 ^ power) :
    (∃ significand unit, significand < 2 ^ 53 ∧ number = significand * 2 ^ unit) ↔
      2 ^ power ∣ number := by
  constructor
  · rintro ⟨significand, unit, isShort, rfl⟩
    have isLarge : 2 ^ 52 * 2 ^ power < 2 ^ 53 * 2 ^ unit :=
      reached.trans_lt (Nat.mul_lt_mul_of_pos_right isShort (Nat.two_pow_pos unit))
    have isUnit : 2 ^ power < 2 ^ (unit + 1) := by
      rw [Nat.pow_succ]
      omega
    have isBelow : power < unit + 1 := (Nat.pow_lt_pow_iff_right (by decide)).mp isUnit
    exact Nat.dvd_mul_left_of_dvd (Nat.pow_dvd_pow 2 (Nat.le_of_lt_succ isBelow)) significand
  · rintro ⟨units, rfl⟩
    refine ⟨units, power, ?_, Nat.mul_comm _ _⟩
    rw [Nat.mul_comm] at within
    exact Nat.lt_of_mul_lt_mul_right within

/-- The leading bits of a rounded number are the integer part of what was rounded unless it is
rounded up to the next integer. -/
theorem roundHalfEven_div_eq_div_iff (positive : 0 < den) (isFine : 0 < power) :
    roundHalfEven (num * 2 ^ power) den / 2 ^ power = num / den ↔
      2 * (num * 2 ^ power) + den < 2 * ((num / den + 1) * den * 2 ^ power) := by
  have atLeast : num / den * 2 ^ power ≤ roundHalfEven (num * 2 ^ power) den := by
    refine le_roundHalfEven positive ?_
    rw [Nat.mul_right_comm]
    exact Nat.mul_le_mul_right _ (Nat.div_mul_le_self num den)
  have isEven : (num / den + 1) * 2 ^ power % 2 = 0 := by
    obtain ⟨finer, rfl⟩ := Nat.exists_eq_succ_of_ne_zero isFine.ne'
    rw [Nat.pow_succ, ← Nat.mul_assoc, Nat.mul_mod_left]
  have isAbove := le_roundHalfEven_iff positive (num * 2 ^ power) ((num / den + 1) * 2 ^ power)
  rw [Nat.mul_right_comm] at isAbove
  rw [Nat.div_eq_iff (Nat.two_pow_pos power)]
  rw [Nat.add_mul (num / den) 1 (2 ^ power), Nat.one_mul] at isAbove isEven
  have unitPositive := Nat.two_pow_pos power
  omega

/-- A quotient of at least one has as many bits before the point as its integer part has. -/
theorem exists_bits
    (positive : 0 < den) (isSome : 0 < num / den) (within : num * 2 ^ power < 2 ^ 53 * den)
    (reached : power = 1074 ∨ 2 ^ 52 * den ≤ num * 2 ^ power) :
    ∃ bits, power + bits = 52 ∧ (num / den).size = bits + 1 := by
  have floor : num / den * den ≤ num := Nat.div_mul_le_self num den
  have missed : num < (num / den + 1) * den := by
    rw [Nat.add_mul, Nat.one_mul]
    exact Nat.lt_div_mul_add positive
  generalize num / den = integer at *
  have isBelow : integer * 2 ^ power < 2 ^ 53 := by
    refine Nat.lt_of_mul_lt_mul_right (a := den) ?_
    rw [Nat.mul_right_comm]
    exact (Nat.mul_le_mul_right _ floor).trans_lt within
  have isPower : power < 53 := by
    have unit : 2 ^ power ≤ integer * 2 ^ power := Nat.le_mul_of_pos_left _ isSome
    exact (Nat.pow_lt_pow_iff_right (by decide)).mp (unit.trans_lt isBelow)
  have isAbove : 2 ^ 52 < (integer + 1) * 2 ^ power := by
    refine Nat.lt_of_mul_lt_mul_right (a := den) ?_
    rw [Nat.mul_right_comm]
    exact (reached.resolve_left (by omega)).trans_lt
      (Nat.mul_lt_mul_of_pos_right missed (Nat.two_pow_pos power))
  obtain ⟨bits, isBits⟩ := Nat.exists_eq_add_of_le (Nat.le_of_lt_succ isPower)
  refine ⟨bits, isBits.symm, size_eq_of_bounds ?_ ?_⟩
  · rw [isBits, Nat.pow_add, Nat.mul_comm] at isAbove
    exact Nat.le_of_lt_succ (Nat.lt_of_mul_lt_mul_right isAbove)
  · rw [show 53 = power + (bits + 1) by omega, Nat.pow_add, Nat.mul_comm (2 ^ power)] at isBelow
    exact Nat.lt_of_mul_lt_mul_right isBelow

/-- A quotient of at least a half and less than one has no bit before the point, and its first
bit is the one after the point. -/
theorem power_of_half
    (isHalf : den ≤ 2 * num) (isFraction : num < den) (within : num * 2 ^ power < 2 ^ 53 * den)
    (reached : power = 1074 ∨ 2 ^ 52 * den ≤ num * 2 ^ power) :
    power = 53 := by
  have isBelow : 2 ^ power < 2 ^ 54 := by
    refine Nat.lt_of_mul_lt_mul_right (a := den) ?_
    have doubled := Nat.mul_le_mul_right (2 ^ power) isHalf
    rw [Nat.mul_assoc, Nat.mul_comm den] at doubled
    omega
  have isPower : power < 54 := (Nat.pow_lt_pow_iff_right (by decide)).mp isBelow
  have isAbove : 2 ^ 52 < 2 ^ power := by
    refine Nat.lt_of_mul_lt_mul_right (a := den) ?_
    rw [Nat.mul_comm (2 ^ power)]
    exact (reached.resolve_left (by omega)).trans_lt
      (Nat.mul_lt_mul_of_pos_right isFraction (Nat.two_pow_pos power))
  have isPowerToo : 52 < power := (Nat.pow_lt_pow_iff_right (by decide)).mp isAbove
  omega

/-- The next integer is missed at the precision that the rounding has just if it is missed at the
one that the integer part tells. -/
theorem fine_iff
    (positive : 0 < den) (within : num * 2 ^ power < 2 ^ 53 * den)
    (reached : power = 1074 ∨ 2 ^ 52 * den ≤ num * 2 ^ power) :
    2 * (num * 2 ^ power) + den < 2 * ((num / den + 1) * den * 2 ^ power) ↔
      2 ^ 54 * num + 2 ^ (num / den).size * den < 2 ^ 54 * ((num / den + 1) * den) := by
  rcases Nat.eq_zero_or_pos (num / den) with isZero | isSome
  · have isFraction : num < den := (Nat.div_eq_zero_iff_lt positive).mp isZero
    rw [isZero, Nat.size_zero, Nat.zero_add, Nat.one_mul]
    -- Less than a half is far from one at any precision; from a half on the precision is known.
    rcases Nat.lt_or_ge (2 * num) den with isSmall | isHalf
    · have unit := Nat.two_pow_pos power
      have isBelow : 2 * num * 2 ^ power < den * 2 ^ power :=
        Nat.mul_lt_mul_of_pos_right isSmall unit
      have isUnit : den ≤ den * 2 ^ power := Nat.le_mul_of_pos_right den unit
      rw [Nat.mul_assoc] at isBelow
      exact iff_of_true (by omega) (by omega)
    · rw [power_of_half isHalf isFraction within reached]
      omega
  · obtain ⟨bits, isBits, isSize⟩ := exists_bits positive isSome within reached
    have isScale : 2 ^ 54 = 2 ^ (bits + 1) * (2 * 2 ^ power) := by
      rw [← Nat.pow_succ', ← Nat.pow_add]
      congr 1
      omega
    rw [isSize, isScale, ← Nat.mul_lt_mul_left (Nat.two_pow_pos (bits + 1))]
    have left : 2 ^ (bits + 1) * (2 * (num * 2 ^ power) + den) =
        2 ^ (bits + 1) * (2 * 2 ^ power) * num + 2 ^ (bits + 1) * den := by ring
    have right : 2 ^ (bits + 1) * (2 * ((num / den + 1) * den * 2 ^ power)) =
        2 ^ (bits + 1) * (2 * 2 ^ power) * ((num / den + 1) * den) := by ring
    rw [left, right]

theorem Cuts.fits {integer : Nat} (cuts : Cuts num den (some integer)) :
    num < overflowBound * den := by
  cases cuts with
  | coarse power reached within fits => exact fits
  | fine power isFine within reached =>
      have isLess : num ≤ num * 2 ^ power := Nat.le_mul_of_pos_right num (Nat.two_pow_pos power)
      exact lt_carryBound_mul 970 (by omega)

/-- What is cut from a rounded quotient is its integer part just if rounding keeps that. -/
theorem Cuts.eq_div_iff
    {integer : Nat} (cuts : Cuts num den (some integer)) (positive : 0 < den) :
    integer = num / den ↔ KeepsWhole num den := by
  have fits := cuts.fits
  cases cuts with
  | coarse power reached within =>
      have atLeast : 2 ^ 52 * 2 ^ power ≤ num / den := by
        rw [Nat.le_div_iff_mul_le positive]
        linarith
      have below : num / den < 2 ^ 53 * 2 ^ power := by
        rw [Nat.div_lt_iff_lt_mul positive]
        linarith
      rcases Nat.eq_zero_or_pos power with rfl | isCoarse
      · rw [Nat.pow_zero, Nat.mul_one] at atLeast below
        have isSize := size_eq_of_bounds atLeast below
        rw [Nat.pow_zero, Nat.mul_one, Nat.mul_one, roundHalfEven_eq_div_iff positive]
        constructor
        · intro isNearest
          refine ⟨fits, ⟨num / den, 0, below, (Nat.mul_one _).symm⟩, fun _ => ?_⟩
          rw [isSize]
          exact isNearest.imp (by omega) fun middle => ⟨atLeast, middle⟩
        · intro keeps
          have notRaised := keeps.notRaised below
          rw [isSize] at notRaised
          exact notRaised.imp (by omega) And.right
      · have isEven : 2 ≤ 2 ^ power := Nat.le_self_pow isCoarse.ne' 2
        rw [roundHalfEven_mul_eq_div_iff positive isCoarse,
          ← exists_significand_iff atLeast below]
        exact ⟨fun isDouble => ⟨fits, isDouble, fun isSmall => by omega⟩, KeepsWhole.isDouble⟩
  | fine power isFine within reached =>
      have isSmall : num / den < 2 ^ 52 := by
        rw [Nat.div_lt_iff_lt_mul positive]
        have doubled : num * 2 ≤ num * 2 ^ power :=
          Nat.mul_le_mul_left num (Nat.le_self_pow isFine.ne' 2)
        omega
      rw [roundHalfEven_div_eq_div_iff positive isFine, fine_iff positive within reached]
      constructor
      · intro isMissed
        exact ⟨fits, ⟨num / den, 0, by omega, (Nat.mul_one _).symm⟩, fun _ => .inl isMissed⟩
      · intro keeps
        exact (keeps.notRaised (by omega)).resolve_right fun middle => by omega

/-- Rounding errs by at most one part in `2 ^ 53` of what has 53 bits before the point. -/
theorem roundHalfEven_near (positive : 0 < den) (reached : 2 ^ 52 * den ≤ num) :
    2 ^ 53 * (roundHalfEven num den * den) ≤ (2 ^ 53 + 1) * num ∧
      (2 ^ 53 - 1) * num ≤ 2 ^ 53 * (roundHalfEven num den * den) := by
  have isAbove := two_mul_roundHalfEven_le positive num
  have isBelow := le_two_mul_roundHalfEven positive num
  omega

/-- A quotient whose significand has less than 53 bits is cut to nothing. -/
theorem roundHalfEven_div_of_small
    (positive : 0 < den) (isSmallest : 53 ≤ power) (isSmall : num * 2 ^ power < 2 ^ 52 * den) :
    roundHalfEven (num * 2 ^ power) den / 2 ^ power = 0 := by
  have atMost := roundHalfEven_le positive (Nat.le_of_lt isSmall)
  have isLarge : 2 ^ 53 ≤ 2 ^ power := Nat.pow_le_pow_right Nat.two_pos isSmallest
  exact Nat.div_eq_of_lt (by omega)

/-- What is cut from a rounded quotient lies within one part in `2 ^ 53` of the quotient, or less
than one below that. -/
theorem Cuts.near
    {integer : Nat} (cuts : Cuts num den (some integer)) (positive : 0 < den) :
    2 ^ 53 * (integer * den) ≤ (2 ^ 53 + 1) * num ∧
      (2 ^ 53 - 1) * num < 2 ^ 53 * ((integer + 1) * den) := by
  cases cuts with
  | coarse power reached within fits =>
      have unitPositive : 0 < den * 2 ^ power := Nat.mul_pos positive (Nat.two_pow_pos power)
      have isNear := roundHalfEven_near unitPositive reached
      have isWhole : roundHalfEven num (den * 2 ^ power) * 2 ^ power * den =
          roundHalfEven num (den * 2 ^ power) * (den * 2 ^ power) := by ring
      rw [Nat.add_mul _ 1 den, isWhole]
      omega
  | fine power isFine within reached =>
      rcases Nat.lt_or_ge (num * 2 ^ power) (2 ^ 52 * den) with isSmall | isNormal
      · have isSmallest : power = 1074 := reached.resolve_right (Nat.not_le_of_lt isSmall)
        rw [roundHalfEven_div_of_small positive (by omega) isSmall]
        have isLarge : 2 ^ 52 ≤ 2 ^ power := Nat.pow_le_pow_right Nat.two_pos (by omega)
        have isLess := Nat.mul_le_mul_left num isLarge
        omega
      · have isNear := roundHalfEven_near positive isNormal
        have isCut := Nat.div_mul_le_self (roundHalfEven (num * 2 ^ power) den) (2 ^ power)
        have isLess := Nat.lt_div_mul_add (a := roundHalfEven (num * 2 ^ power) den)
          (Nat.two_pow_pos power)
        generalize roundHalfEven (num * 2 ^ power) den / 2 ^ power = integer at *
        have covered := Nat.mul_le_mul_right den isCut
        have exceeded := Nat.mul_lt_mul_of_pos_right isLess positive
        constructor
        · refine Nat.le_of_mul_le_mul_right ?_ (Nat.two_pow_pos power)
          linarith
        · refine Nat.lt_of_mul_lt_mul_right (a := 2 ^ power) ?_
          linarith

theorem two_pow_size_le {number : Nat} (positive : 0 < number) :
    2 ^ number.size ≤ 2 * number := by
  obtain ⟨bits, isSize⟩ := Nat.exists_eq_succ_of_ne_zero (Nat.size_pos.mpr positive).ne'
  have reached : 2 ^ bits ≤ number := Nat.lt_size.mp (isSize ▸ Nat.lt_succ_self bits)
  rw [isSize, Nat.pow_succ]
  omega

/-- Rounding keeps the integer part of every quotient of a magnitude up to `2 ^ 53`. -/
theorem KeepsWhole.of_le (positive : 0 < den) (isSmall : num ≤ 2 ^ 53) : KeepsWhole num den := by
  have floor : num / den * den ≤ num := Nat.div_mul_le_self num den
  have missed : num < num / den * den + den := Nat.lt_div_mul_add positive
  have atMost : num / den ≤ num := Nat.div_le_self num den
  refine ⟨lt_carryBound_mul 970 (by omega), ?_, fun isBelow => .inl ?_⟩
  · rcases Nat.lt_or_ge (num / den) (2 ^ 53) with isBelow | isLarge
    · exact ⟨num / den, 0, isBelow, (Nat.mul_one _).symm⟩
    · exact ⟨1, 53, by omega, by omega⟩
  · rw [Nat.add_mul _ 1 den]
    rcases Nat.eq_zero_or_pos (num / den) with isZero | isSome
    · rw [isZero] at missed ⊢
      rw [Nat.size_zero]
      omega
    · have isSize := Nat.mul_le_mul_right den (two_pow_size_le isSome)
      have isShort : 2 ^ (num / den).size ≤ 2 ^ 53 :=
        Nat.pow_le_pow_right Nat.two_pos (Nat.size_le.mpr isBelow)
      have isBounded := Nat.mul_le_mul_right den isShort
      rw [Nat.mul_assoc] at isSize
      omega

/-- Quotients are rounded to infinity from the overflow bound on.  Of any other, rounding and
cutting leave an integer near to it, which is its integer part just if rounding keeps that. -/
theorem ofQuotient_cases (negative : Bool) (num : Nat) (positive : 0 < den) :
    overflowBound * den ≤ num ∧ ofQuotient negative num den = .infinite negative ∨
      num < overflowBound * den ∧ ∃ integer,
        (ofQuotient negative num den).truncate? = some (signed negative integer) ∧
        2 ^ 53 * (integer * den) ≤ (2 ^ 53 + 1) * num ∧
        (2 ^ 53 - 1) * num < 2 ^ 53 * ((integer + 1) * den) ∧
        (integer = num / den ↔ KeepsWhole num den) := by
  rcases Nat.eq_zero_or_pos num with rfl | numPositive
  · exact .inr ⟨lt_carryBound_mul 970 (by omega), 0, truncate?_zero negative, by omega, by omega,
      iff_of_true (Nat.zero_div den).symm (.of_le positive (Nat.zero_le _))⟩
  · obtain ⟨whole, cuts, isCut⟩ := cuts_ofQuotient negative numPositive positive
    cases whole with
    | none =>
        cases cuts with
        | tooLarge isTooLarge =>
            exact .inl ⟨isTooLarge, ofQuotient_of_truncate?_eq_none numPositive isCut⟩
    | some integer =>
        obtain ⟨isAbove, isBelow⟩ := cuts.near positive
        exact .inr ⟨cuts.fits, integer, isCut, isAbove, isBelow, cuts.eq_div_iff positive⟩

end Binary64

end CueScript
