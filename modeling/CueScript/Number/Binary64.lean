/-!
# Binary floating-point numbers of double width

A finite number is a sign, a significand below `2 ^ 53` and a power of two not
below `2 ^ (-1074)`.  Every operation computes the exact rational result and
rounds it once, to the nearest number with ties to the even significand, so
each one is a plain function on integers that a proof can compute with.

The rounding step is `Binary64.ofQuotient`; conversion of integers and decimal
literals, division of integers and the four operations all go through it.
-/

namespace CueScript

/-- The nearest integer to `num / den`; a tie goes to the even neighbour. -/
def roundHalfEven (num den : Nat) : Nat :=
  let quotient := num / den
  let remainder := num % den
  if 2 * remainder < den then
    quotient
  else if den < 2 * remainder then
    quotient + 1
  else
    quotient + quotient % 2

/-- A double: a signed finite number `± significand * 2 ^ exponent`, an
infinity, or the result of an operation that has no number. -/
inductive Binary64 where
  | finite (negative : Bool) (significand : Nat) (exponent : Int)
  | infinite (negative : Bool)
  | nan
  deriving DecidableEq, Repr, Inhabited

namespace Binary64

-- Powers are those of the core library, also beside a library that has powers of its own.
attribute [local instance (2000)] instPowNat

/-- The smallest exponent of a finite number. -/
def minExponent : Int := -1074

/-- The largest exponent of a finite number. -/
def maxExponent : Int := 971

/-- One more than the largest significand. -/
def significandBound : Nat := 2 ^ (53 : Nat)

/-- Zero of either sign. -/
def zero (negative : Bool) : Binary64 := .finite negative 0 minExponent

/-! ## Rounding -/

/-- The fraction `num / den * 2 ^ (-exponent)`, again as a numerator and a
denominator. -/
def scaleDown (num den : Nat) (exponent : Int) : Nat × Nat :=
  if 0 ≤ exponent then
    (num, den * 2 ^ exponent.toNat)
  else
    (num * 2 ^ (-exponent).toNat, den)

/-- The exponent at which `num / den` has a significand of 53 bits, or the
smallest exponent there is. -/
def exponentFor (num den : Nat) : Int :=
  let estimate : Int := (num.log2 : Int) - (den.log2 : Int) - 52
  let (scaledNum, scaledDen) := scaleDown num den estimate
  let fitted :=
    if scaledNum < scaledDen * 2 ^ (52 : Nat) then estimate - 1 else estimate
  max fitted minExponent

/-- The number nearest to `num / den` with the given sign; beyond the largest
number it is infinite. -/
def ofQuotient (negative : Bool) (num den : Nat) : Binary64 :=
  if num = 0 then
    zero negative
  else
    let exponent := exponentFor num den
    let (scaledNum, scaledDen) := scaleDown num den exponent
    let rounded := roundHalfEven scaledNum scaledDen
    let (significand, exponent) :=
      if rounded = significandBound then
        (significandBound / 2, exponent + 1)
      else
        (rounded, exponent)
    if maxExponent < exponent then
      .infinite negative
    else
      .finite negative significand exponent

/-- The number nearest to `± magnitude * 2 ^ exponent`. -/
def ofScaled (negative : Bool) (magnitude : Nat) (exponent : Int) : Binary64 :=
  if 0 ≤ exponent then
    ofQuotient negative (magnitude * 2 ^ exponent.toNat) 1
  else
    ofQuotient negative magnitude (2 ^ (-exponent).toNat)

/-- The number nearest to an integer; infinite when the integer is too large. -/
def ofInt (n : Int) : Binary64 :=
  ofQuotient (n < 0) n.natAbs 1

/-- The number nearest to `± digits * 10 ^ power`, where `digits` has at most
`width` decimal digits.  Powers far outside the range are settled without
computing them. -/
def ofDecimal (negative : Bool) (digits width : Nat) (power : Int) : Binary64 :=
  if digits = 0 then
    zero negative
  else if 400 < power then
    .infinite negative
  else if power + width < -400 then
    zero negative
  else if 0 ≤ power then
    ofQuotient negative (digits * 10 ^ power.toNat) 1
  else
    ofQuotient negative digits (10 ^ (-power).toNat)

/-! ## Parts of a number -/

/-- The sign of a number; the result without a number counts as positive. -/
def isNegative : Binary64 → Bool
  | .finite negative _ _ => negative
  | .infinite negative => negative
  | .nan => false

/-- The same number with the given sign. -/
def withSign (negative : Bool) : Binary64 → Binary64
  | .finite _ significand exponent => .finite negative significand exponent
  | .infinite _ => .infinite negative
  | .nan => .nan

/-- The opposite number. -/
def neg (x : Binary64) : Binary64 := x.withSign (!x.isNegative)

/-- The magnitude of a number. -/
def abs (x : Binary64) : Binary64 := x.withSign false

/-- Zero of either sign. -/
def isZero : Binary64 → Bool
  | .finite _ significand _ => significand == 0
  | _ => false

/-- The signed significand over a common exponent not above the number's own. -/
def signedAt (common : Int) (negative : Bool) (significand : Nat)
    (exponent : Int) : Int :=
  let magnitude : Int := significand * 2 ^ (exponent - common).toNat
  if negative then -magnitude else magnitude

/-- The exact value of a finite number as an integer over a power of two. -/
def toFraction? : Binary64 → Option (Int × Nat)
  | .finite negative significand exponent =>
      let signed : Int := if negative then -significand else significand
      if 0 ≤ exponent then
        some (signed * 2 ^ exponent.toNat, 1)
      else
        some (signed, 2 ^ (-exponent).toNat)
  | _ => none

/-- The integer part of a finite number, cut toward zero. -/
def truncate? (x : Binary64) : Option Int :=
  x.toFraction?.map fun (num, den) => num.tdiv den

/-! ## Arithmetic -/

/-- Exact sum, rounded once.  A sum of zero is negative only when both terms
are negative. -/
def add : Binary64 → Binary64 → Binary64
  | .nan, _ => .nan
  | _, .nan => .nan
  | .infinite s, .infinite t => if s = t then .infinite s else .nan
  | .infinite s, _ => .infinite s
  | _, .infinite t => .infinite t
  | .finite s m e, .finite t n f =>
      let common := min e f
      let sum := signedAt common s m e + signedAt common t n f
      if sum = 0 then
        zero (s && t)
      else
        ofScaled (sum < 0) sum.natAbs common

/-- Exact difference, rounded once. -/
def sub (x y : Binary64) : Binary64 := x.add y.neg

/-- Exact product, rounded once. -/
def mul : Binary64 → Binary64 → Binary64
  | .nan, _ => .nan
  | _, .nan => .nan
  | .infinite s, y => if y.isZero then .nan else .infinite (s != y.isNegative)
  | x, .infinite t => if x.isZero then .nan else .infinite (x.isNegative != t)
  | .finite s m e, .finite t n f => ofScaled (s != t) (m * n) (e + f)

/-- Exact quotient, rounded once; dividing by zero gives no number here, and
callers refuse it first. -/
def div : Binary64 → Binary64 → Binary64
  | .nan, _ => .nan
  | _, .nan => .nan
  | .infinite _, .infinite _ => .nan
  | .infinite s, y => .infinite (s != y.isNegative)
  | x, .infinite t => zero (x.isNegative != t)
  | .finite s m e, .finite t n f =>
      if n = 0 then
        .nan
      else if f ≤ e then
        ofQuotient (s != t) (m * 2 ^ (e - f).toNat) n
      else
        ofQuotient (s != t) m (n * 2 ^ (f - e).toNat)

/-- The remainder of division cut toward zero: it is exact and has the sign of
the dividend. -/
def rem : Binary64 → Binary64 → Binary64
  | .nan, _ => .nan
  | _, .nan => .nan
  | .infinite _, _ => .nan
  | x, .infinite _ => x
  | .finite s m e, .finite _ n f =>
      if n = 0 then
        .nan
      else
        let common := min e f
        let left := m * 2 ^ (e - common).toNat
        let right := n * 2 ^ (f - common).toNat
        ofScaled s (left % right) common

/-- The remainder of division to the floor: it has the sign of the divisor,
also when it is zero. -/
def floorMod (x y : Binary64) : Binary64 :=
  let remainder := x.rem y
  if remainder.isZero then
    remainder.withSign y.isNegative
  else if remainder = .nan then
    .nan
  else if y.isNegative != remainder.isNegative then
    remainder.add y
  else
    remainder

/-! ## Order -/

/-- Compare two fractions with positive denominators. -/
def compareFractions (a b : Int × Nat) : Ordering :=
  compare (a.1 * b.2) (b.1 * a.2)

/-- The order of a number and an exact fraction; none without a number. -/
def compareWith? (x : Binary64) (fraction : Int × Nat) : Option Ordering :=
  match x with
  | .nan => none
  | .infinite negative => some (if negative then .lt else .gt)
  | .finite .. => x.toFraction?.map (compareFractions · fraction)

/-- The order of two numbers; none unless both are numbers. -/
def compare? : Binary64 → Binary64 → Option Ordering
  | .nan, _ => none
  | _, .nan => none
  | .infinite s, .infinite t =>
      some (if s = t then .eq else if s then .lt else .gt)
  | _, .infinite t => some (if t then .gt else .lt)
  | x, y => y.toFraction?.bind (x.compareWith? ·)

end Binary64

end CueScript
