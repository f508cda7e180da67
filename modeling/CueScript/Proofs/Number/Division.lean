import CueScript.Proofs.Collection.Lookup
import CueScript.Proofs.Number.IntegerPart

/-!
# Division of integers

`mod` is exact: it gives the remainder that has the sign of the divisor.  `quot` cuts the double
nearest to the quotient toward zero.  It fails for quotients that are too large for a double, and
otherwise `(- a (* b (quot a b)))` exceeds the size that a remainder has by at most one part in
`2 ^ 53` of the dividend.

`quot` is exact just if rounding keeps the integer part of the quotient.  That is so for all
dividends up to `2 ^ 53`.
-/

namespace CueScript

namespace Division

/-! ## Remainders -/

/-- What a division leaves over: it is congruent to the dividend, smaller than the divisor, and
zero or of a given sign. -/
structure IsRemainder (dividend divisor sign remainder : Int) : Prop where
  congruent : divisor ∣ dividend - remainder
  small : remainder.natAbs < divisor.natAbs
  alike : remainder = 0 ∨ remainder.sign = sign.sign

section Remainders

variable {a b : Int}

theorem zero_or_sign_eq_iff {number sign : Int} :
    number = 0 ∨ number.sign = sign.sign ↔
      0 ≤ sign ∧ (0 ≤ number ∧ (sign = 0 → number = 0)) ∨ sign < 0 ∧ number ≤ 0 := by
  rcases Int.lt_trichotomy sign 0 with isNegative | rfl | isPositive
  · rw [Int.sign_eq_neg_one_of_neg isNegative, Int.sign_eq_neg_one_iff_neg]
    omega
  · rw [Int.sign_zero, Int.sign_eq_zero_iff_zero]
    omega
  · rw [Int.sign_eq_one_of_pos isPositive, Int.sign_eq_one_iff_pos]
    omega

/-- The remainder of division to the floor has the sign of the divisor. -/
theorem isRemainder_fmod (nonzero : b ≠ 0) : IsRemainder a b b (a.fmod b) := by
  have reached := Int.emod_nonneg a nonzero
  have below := Int.emod_lt a nonzero
  have range : 0 ≤ a.fmod b ∧ a.fmod b < b ∨ b < a.fmod b ∧ a.fmod b ≤ 0 := by
    rw [Int.fmod_eq_emod]
    split_ifs with isExact
    · rcases isExact with positive | divides
      · omega
      · have isZero := Int.emod_eq_zero_of_dvd divides
        omega
    · have isRest : a % b ≠ 0 := fun isZero => isExact (.inr (Int.dvd_of_emod_eq_zero isZero))
      omega
  refine ⟨?_, by omega, zero_or_sign_eq_iff.mpr (by omega)⟩
  rw [Int.fmod_def]
  exact ⟨a.fdiv b, by ring⟩

theorem signed_natAbs (a : Int) : Binary64.signed (decide (a < 0)) a.natAbs = a := by
  by_cases isNegative : a < 0
  · rw [decide_eq_true isNegative, Binary64.signed, if_pos rfl]
    omega
  · rw [decide_eq_false isNegative, Binary64.signed, if_neg (by decide)]
    omega

/-- The product with a divisor has the sign of the dividend. -/
theorem mul_signed (a b : Int) (integer : Nat) :
    b * Binary64.signed (decide (a < 0) != decide (b < 0)) integer =
      Binary64.signed (decide (a < 0)) (b.natAbs * integer) := by
  nth_rewrite 1 [← signed_natAbs b]
  cases decide (a < 0) <;> cases decide (b < 0) <;> simp [Binary64.signed]

/-- What remains of a dividend is a remainder with its sign just if the magnitude taken away
reaches as far as multiples of the divisor fit in. -/
theorem isRemainder_sub_signed_iff {covered : Nat} (divides : b.natAbs ∣ covered) :
    IsRemainder a b a (a - Binary64.signed (decide (a < 0)) covered) ↔
      covered ≤ a.natAbs ∧ a.natAbs < covered + b.natAbs := by
  have congruent : b ∣ a - (a - Binary64.signed (decide (a < 0)) covered) := by
    rw [Int.sub_sub_self, ← Int.natAbs_dvd_natAbs, Binary64.natAbs_signed]
    exact divides
  have isIff : IsRemainder a b a (a - Binary64.signed (decide (a < 0)) covered) ↔
      (a - Binary64.signed (decide (a < 0)) covered).natAbs < b.natAbs ∧
        (a - Binary64.signed (decide (a < 0)) covered = 0 ∨
          (a - Binary64.signed (decide (a < 0)) covered).sign = a.sign) :=
    ⟨fun isRemainder => ⟨isRemainder.small, isRemainder.alike⟩,
      fun ⟨small, alike⟩ => ⟨congruent, small, alike⟩⟩
  rw [isIff, zero_or_sign_eq_iff]
  by_cases isNegative : a < 0
  · rw [decide_eq_true isNegative, Binary64.signed, if_pos rfl]
    omega
  · rw [decide_eq_false isNegative, Binary64.signed, if_neg (by decide)]
    omega

/-- The quotient that leaves over a remainder with the sign of the dividend is the quotient of
the magnitudes, with a negative sign if just one of the two has it. -/
theorem isRemainder_iff_eq_div (nonzero : b ≠ 0) (integer : Nat) :
    IsRemainder a b a (a - b * Binary64.signed (decide (a < 0) != decide (b < 0)) integer) ↔
      integer = a.natAbs / b.natAbs := by
  have positive : 0 < b.natAbs := Int.natAbs_pos.mpr nonzero
  rw [mul_signed, isRemainder_sub_signed_iff (Nat.dvd_mul_right _ _), eq_comm,
    Nat.div_eq_iff positive, Nat.mul_comm]
  omega

/-- What remains exceeds the size of a remainder by as much as rounding errs. -/
theorem natAbs_sub_mul_signed_lt
    {integer : Nat} (nonzero : b ≠ 0)
    (isAbove : 2 ^ 53 * (integer * b.natAbs) ≤ (2 ^ 53 + 1) * a.natAbs)
    (isBelow : (2 ^ 53 - 1) * a.natAbs < 2 ^ 53 * ((integer + 1) * b.natAbs)) :
    2 ^ 53 * (a - b * Binary64.signed (decide (a < 0) != decide (b < 0)) integer).natAbs <
      a.natAbs + 2 ^ 53 * b.natAbs := by
  rw [mul_signed, Nat.mul_comm b.natAbs]
  rw [Nat.add_mul integer 1 b.natAbs] at isBelow
  generalize integer * b.natAbs = covered at *
  generalize isRest : (a - Binary64.signed (decide (a < 0)) covered).natAbs = rest
  by_cases isNegative : a < 0
  · rw [decide_eq_true isNegative, Binary64.signed, if_pos rfl] at isRest
    omega
  · rw [decide_eq_false isNegative, Binary64.signed, if_neg (by decide)] at isRest
    omega

end Remainders

/-! ## Calls -/

section Calls

open Access (perform_callerOf_builtin)
open Eval (callerOf)

variable {frames : Nat} {heap : Heap} {a b : Int}

theorem perform_callerOf_ints (builtin : Builtin) (a b : Int) :
    (callerOf (frames + 1) (.builtin builtin) [.int a, .int b]).perform heap =
      (Call.perform (callerOf frames) builtin [.int a, .int b]).perform heap := by
  rw [perform_callerOf_builtin, List.map_cons, List.map_cons, List.map_nil, Heap.current_int,
    Heap.current_int]

theorem perform_multiply_ints (a b : Int) :
    (callerOf (frames + 1) (.builtin .multiply) [.int a, .int b]).perform heap =
      (.ok (.int (a * b)), heap) := by
  rw [perform_callerOf_ints]
  change (Except.ok (Value.int (1 * a * b)), heap) = _
  rw [Int.one_mul]

theorem perform_subtract_ints (a b : Int) :
    (callerOf (frames + 1) (.builtin .subtract) [.int a, .int b]).perform heap =
      (.ok (.int (a - b)), heap) := by
  rw [perform_callerOf_ints]
  rfl

theorem perform_modulo_ints (nonzero : b ≠ 0) :
    (callerOf (frames + 1) (.builtin .modulo) [.int a, .int b]).perform heap =
      (.ok (.int (a.fmod b)), heap) := by
  rw [perform_callerOf_ints]
  change (if b = 0 then Action.fail .divisionByZero else
    (pure (Value.int (a.fmod b)) : Action Value)).perform heap = _
  rw [if_neg nonzero]
  rfl

theorem perform_quotient_ints (a b : Int) :
    (callerOf (frames + 1) (.builtin .quotient) [.int a, .int b]).perform heap =
      (Arithmetic.quotientOfInts a b >>= Arithmetic.integerPart).perform heap := by
  rw [perform_callerOf_ints]
  rfl

/-- `quot` fails on a quotient that is too large when it is rounded. -/
theorem perform_quotient_tooLarge
    (nonzero : b ≠ 0)
    (isTooLarge : Binary64.ofQuotient (decide (a < 0) != decide (b < 0)) a.natAbs b.natAbs =
      .infinite (decide (a < 0) != decide (b < 0))) :
    (callerOf (frames + 1) (.builtin .quotient) [.int a, .int b]).perform heap =
      (.error (.failed .tooLarge), heap) := by
  rw [perform_quotient_ints, Arithmetic.quotientOfInts, if_neg nonzero]
  rw [isTooLarge]
  rfl

/-- `quot` cuts any other quotient to an integer when it is rounded. -/
theorem perform_quotient_truncate
    {integer : Int} (nonzero : b ≠ 0)
    (isCut : (Binary64.ofQuotient (decide (a < 0) != decide (b < 0)) a.natAbs b.natAbs).truncate? =
      some integer) :
    (callerOf (frames + 1) (.builtin .quotient) [.int a, .int b]).perform heap =
      (.ok (.int integer), heap) := by
  rw [perform_quotient_ints, Arithmetic.quotientOfInts, if_neg nonzero]
  generalize Binary64.ofQuotient _ _ _ = double at isCut ⊢
  cases double with
  | infinite negative => cases isCut
  | nan => cases isCut
  | finite negative significand exponent =>
      have isPart : Arithmetic.integerPart (.finite negative significand exponent) =
          pure (.int integer) := by
        rw [Arithmetic.integerPart.eq_def, isCut]
      exact congrArg (fun action => Action.perform action heap) isPart

/-- `(- a (* b (quot a b)))`. -/
def leftOver (call : Caller) (a b : Value) : Action Value := do
  let whole ← call (.builtin .quotient) [a, b]
  let product ← call (.builtin .multiply) [b, whole]
  call (.builtin .subtract) [a, product]

theorem perform_leftOver
    {whole : Int} (divided : (callerOf (frames + 1) (.builtin .quotient) [.int a, .int b]).perform
      heap = (.ok (.int whole), heap)) :
    (leftOver (callerOf (frames + 1)) (.int a) (.int b)).perform heap =
      (.ok (.int (a - b * whole)), heap) := by
  rw [leftOver, Action.perform_bind_ok divided, Action.perform_bind_ok (perform_multiply_ints b _),
    perform_subtract_ints]

/-- What `quot` does on two integers: it fails on a quotient that is too large, and otherwise
gives an integer that leaves over a remainder, or not much more. -/
theorem perform_quotient_cases (nonzero : b ≠ 0) :
    Binary64.overflowBound * b.natAbs ≤ a.natAbs ∧
        (callerOf (frames + 1) (.builtin .quotient) [.int a, .int b]).perform heap =
          (.error (.failed .tooLarge), heap) ∨
      a.natAbs < Binary64.overflowBound * b.natAbs ∧ ∃ whole,
        (callerOf (frames + 1) (.builtin .quotient) [.int a, .int b]).perform heap =
          (.ok (.int whole), heap) ∧
        2 ^ 53 * (a - b * whole).natAbs < a.natAbs + 2 ^ 53 * b.natAbs ∧
        (IsRemainder a b a (a - b * whole) ↔ Binary64.KeepsWhole a.natAbs b.natAbs) := by
  rcases Binary64.ofQuotient_cases (decide (a < 0) != decide (b < 0)) a.natAbs
    (Int.natAbs_pos.mpr nonzero) with
    ⟨isTooLarge, isInfinite⟩ | ⟨fits, integer, isCut, isAbove, isBelow, isExact⟩
  · exact .inl ⟨isTooLarge, perform_quotient_tooLarge nonzero isInfinite⟩
  · exact .inr ⟨fits, _, perform_quotient_truncate nonzero isCut,
      natAbs_sub_mul_signed_lt nonzero isAbove isBelow,
      (isRemainder_iff_eq_div nonzero integer).trans isExact⟩

/-- Division of integers by any but zero.

* `mod` gives the remainder with the sign of the divisor.
* `quot` fails on the quotients that are too large for a double.
* Otherwise it gives an integer, and what it leaves over exceeds the size of a remainder by at
  most one part in `2 ^ 53` of the dividend.
* It leaves over the remainder with the sign of the dividend just if the integer part of the
  quotient outlives rounding to a double.
* That it always does for dividends up to `2 ^ 53`. -/
theorem exact_iff_keepsWhole (nonzero : b ≠ 0) :
    (∃ remainder,
      (callerOf (frames + 1) (.builtin .modulo) [.int a, .int b]).perform heap =
        (.ok (.int remainder), heap) ∧
      IsRemainder a b b remainder) ∧
    (Binary64.overflowBound * b.natAbs ≤ a.natAbs →
      (callerOf (frames + 1) (.builtin .quotient) [.int a, .int b]).perform heap =
        (.error (.failed .tooLarge), heap)) ∧
    (a.natAbs < Binary64.overflowBound * b.natAbs → ∃ whole remainder,
      (callerOf (frames + 1) (.builtin .quotient) [.int a, .int b]).perform heap =
        (.ok (.int whole), heap) ∧
      (leftOver (callerOf (frames + 1)) (.int a) (.int b)).perform heap =
        (.ok (.int remainder), heap) ∧
      2 ^ 53 * remainder.natAbs < a.natAbs + 2 ^ 53 * b.natAbs) ∧
    ((∃ whole remainder,
      (callerOf (frames + 1) (.builtin .quotient) [.int a, .int b]).perform heap =
        (.ok (.int whole), heap) ∧
      (leftOver (callerOf (frames + 1)) (.int a) (.int b)).perform heap =
        (.ok (.int remainder), heap) ∧
      IsRemainder a b a remainder) ↔ Binary64.KeepsWhole a.natAbs b.natAbs) ∧
    (a.natAbs ≤ 2 ^ 53 → Binary64.KeepsWhole a.natAbs b.natAbs) := by
  have small : a.natAbs ≤ 2 ^ 53 → Binary64.KeepsWhole a.natAbs b.natAbs :=
    .of_le (Int.natAbs_pos.mpr nonzero)
  refine ⟨⟨_, perform_modulo_ints nonzero, isRemainder_fmod nonzero⟩, ?_⟩
  rcases @perform_quotient_cases frames heap a b nonzero with
    ⟨isTooLarge, fails⟩ | ⟨fits, whole, divided, isNear, isExact⟩
  · have misfits := Nat.not_lt_of_le isTooLarge
    refine ⟨fun _ => fails, fun fits => absurd fits misfits,
      iff_of_false ?_ fun keeps => misfits keeps.fits, small⟩
    rintro ⟨whole, remainder, divided, -⟩
    rw [fails] at divided
    cases divided
  · have left := perform_leftOver divided
    refine ⟨fun isTooLarge => absurd fits (Nat.not_lt_of_le isTooLarge),
      fun _ => ⟨whole, _, divided, left, isNear⟩, ?_, small⟩
    rw [← isExact]
    constructor
    · rintro ⟨other, remainder, -, leftToo, isRemainder⟩
      rw [left] at leftToo
      cases leftToo
      exact isRemainder
    · exact fun isRemainder => ⟨whole, _, divided, left, isRemainder⟩

/-- The integer part of a quotient of two large integers that is a double. -/
theorem keepsWhole_large : Binary64.KeepsWhole 24211351596743786501 7 :=
  ⟨by decide +kernel, ⟨3, 60, by decide +kernel, by decide +kernel⟩,
    fun isBelow => absurd isBelow (by decide +kernel)⟩

theorem exact_iff_keepsWhole_large :
    (7 : Int) ≠ 0 ∧
      (∃ remainder,
        (callerOf 1 (.builtin .modulo) [.int (-24211351596743786501), .int 7]).perform Heap.empty =
          (.ok (.int remainder), Heap.empty) ∧
        IsRemainder (-24211351596743786501) 7 7 remainder) ∧
      ∃ whole remainder,
        (callerOf 1 (.builtin .quotient) [.int (-24211351596743786501), .int 7]).perform
          Heap.empty = (.ok (.int whole), Heap.empty) ∧
        (leftOver (callerOf 1) (.int (-24211351596743786501)) (.int 7)).perform Heap.empty =
          (.ok (.int remainder), Heap.empty) ∧
        IsRemainder (-24211351596743786501) 7 (-24211351596743786501) remainder := by
  have nonzero : (7 : Int) ≠ 0 := by decide
  obtain ⟨isModulo, -, -, isExact, -⟩ :=
    @exact_iff_keepsWhole 0 Heap.empty (-24211351596743786501) 7 nonzero
  exact ⟨nonzero, isModulo, isExact.mpr keepsWhole_large⟩

/-- The integer `2 ^ 53 + 1` is no double.  Divided by one it is rounded, so that one is left
over.  And `2 ^ 1024` is too large to be divided by one. -/
theorem exact_iff_keepsWhole_not_beyond :
    (callerOf 1 (.builtin .quotient) [.int 9007199254740993, .int 1]).perform Heap.empty =
        (.ok (.int 9007199254740992), Heap.empty) ∧
      (leftOver (callerOf 1) (.int 9007199254740993) (.int 1)).perform Heap.empty =
        (.ok (.int 1), Heap.empty) ∧
      ¬ IsRemainder 9007199254740993 1 9007199254740993 1 ∧
      (callerOf 1 (.builtin .quotient) [.int (2 ^ 1024), .int 1]).perform Heap.empty =
        (.error (.failed .tooLarge), Heap.empty) := by
  have divided : (callerOf 1 (.builtin .quotient) [.int 9007199254740993, .int 1]).perform
      Heap.empty = (.ok (.int 9007199254740992), Heap.empty) :=
    perform_quotient_truncate (by decide) (by decide +kernel)
  refine ⟨divided, perform_leftOver divided, ?_, ?_⟩
  · exact fun isRemainder => absurd isRemainder.small (by decide)
  · exact perform_quotient_tooLarge (by decide) (by decide +kernel)

end Calls

end Division

end CueScript
