import CueScript.Number.Binary64

/-!
# Decimal text of numbers

A positive fraction is written in decimal in three ways: with the fewest digits
that read back as the same double (`shortest`), with a given number of places
after the point (`fixedDigits`), or with a given number of significant digits
(`significantDigits`).  All three work on exact integers.

`Binary64.text` is the way a double is shown: positional from `1e-4` up to, but
not including, `1e16`, with an exponent of at least two digits outside that
range, and always with a point or an exponent.
-/

namespace CueScript

/-- The decimal digits of a natural number, most significant first. -/
def decimalDigits (n : Nat) : List Char := Nat.toDigits 10 n

/-- The text of an integer in decimal. -/
def decimalText (n : Int) : String :=
  let digits := String.ofList (decimalDigits n.natAbs)
  if n < 0 then "-" ++ digits else digits

namespace Decimal

-- Powers are those of the core library, also beside a library that has powers of its own.
attribute [local instance (2000)] instPowNat

/-- The fraction `num / den * 10 ^ (-power)`. -/
def scaleDown (num den : Nat) (power : Int) : Nat × Nat :=
  if 0 ≤ power then
    (num, den * 10 ^ power.toNat)
  else
    (num * 10 ^ (-power).toNat, den)

/-- Whether `10 ^ power ≤ num / den`. -/
def reaches (num den : Nat) (power : Int) : Bool :=
  let (scaledNum, scaledDen) := scaleDown num den power
  scaledDen ≤ scaledNum

/-- The power of ten of the leading digit of a positive fraction: the greatest
`power` with `10 ^ power ≤ num / den`.  The logarithm in base two gives it up to
one step. -/
def leadingPower (num den : Nat) : Int :=
  let estimate : Int := (((num.log2 : Int) - (den.log2 : Int)) * 30103) / 100000
  if reaches num den (estimate + 1) then
    estimate + 1
  else if reaches num den estimate then
    estimate
  else
    estimate - 1

/-- A digit string with the power of ten of its first digit. -/
structure Digits where
  digits : List Char
  power : Int
  deriving Repr, DecidableEq

/-- Drop zeros at the end of a digit string, but not its first digit. -/
def dropTrailingZeros : List Char → List Char
  | [] => []
  | first :: rest => first :: (rest.reverse.dropWhile (· == '0')).reverse

/-- Build the digits of `count` units of `10 ^ unit`. -/
def Digits.ofCount (count : Nat) (unit : Int) : Digits :=
  let digits := decimalDigits count
  ⟨digits, unit + digits.length - 1⟩

/-! ## The fewest digits -/

/-- A positive number `value / den` with the distances `below / den` and
`above / den` within which a decimal still reads back as it; the ends count when
`closed` holds. -/
structure Neighbourhood where
  value : Nat
  below : Nat
  above : Nat
  den : Nat
  closed : Bool

/-- The decimals around a positive double that round to it.  The number below a
power of two is half as far away as the number above, except at the smallest
exponent. -/
def neighbourhood (significand : Nat) (exponent : Int) : Neighbourhood :=
  let atPower :=
    significand == Binary64.significandBound / 2 && Binary64.minExponent < exponent
  let below := if atPower then 1 else 2
  let scale := if 0 ≤ exponent then 2 ^ exponent.toNat else 1
  let den := if 0 ≤ exponent then 4 else 4 * 2 ^ (-exponent).toNat
  { value := 4 * significand * scale
    below := below * scale
    above := 2 * scale
    den := den
    closed := significand % 2 == 0 }

/-- The decimal on the grid of `10 ^ unit` that reads back as the number, if
there is one; of two the nearer is taken, and of two equally near ones the even. -/
def onGrid? (near : Neighbourhood) (unit : Int) : Option Nat :=
  let gridNum := if 0 ≤ unit then 10 ^ unit.toNat else 1
  let gridDen := if 0 ≤ unit then 1 else 10 ^ (-unit).toNat
  let step := near.den * gridNum
  let scaled := near.value * gridDen
  let lower := scaled / step
  let down := scaled % step
  let up := step - down
  let within (distance bound : Nat) : Bool :=
    distance < bound * gridDen || (near.closed && distance == bound * gridDen)
  let lowerFits := 0 < lower && within down near.below
  let upperFits := within up near.above
  match lowerFits, upperFits with
  | true, true =>
      if down < up then
        some lower
      else if up < down then
        some (lower + 1)
      else
        some (lower + lower % 2)
  | true, false => some lower
  | false, true => some (lower + 1)
  | false, false => none

/-- Try grids of `count`, `count + 1`, ... digits, at most `remaining` of them. -/
def searchGrids (near : Neighbourhood) (top : Int) :
    (remaining : Nat) → (count : Nat) → Option Digits
  | 0, _ => none
  | remaining + 1, count =>
      let unit := top + 1 - count
      match onGrid? near unit with
      | some hit => some (Digits.ofCount hit unit)
      | none => searchGrids near top remaining (count + 1)

/-- The fewest digits that read back as the positive double
`significand * 2 ^ exponent`, and of those the nearest.  Seventeen digits always
suffice. -/
def shortest (significand : Nat) (exponent : Int) : Digits :=
  let near := neighbourhood significand exponent
  let top := leadingPower near.value near.den
  match searchGrids near top 17 1 with
  | some found => { found with digits := dropTrailingZeros found.digits }
  | none => ⟨['0'], 0⟩

/-! ## A given number of digits -/

/-- The nearest number of units of `10 ^ (-places)` in a fraction. -/
def fixedDigits (num den places : Nat) : Nat :=
  roundHalfEven (num * 10 ^ places) den

/-- The nearest decimal with `count` significant digits, `count` positive. -/
def significantDigits (num den count : Nat) : Digits :=
  if num = 0 then
    ⟨List.replicate count '0', 0⟩
  else
    let top := leadingPower num den
    let unit := top + 1 - count
    let (scaledNum, scaledDen) := scaleDown num den unit
    let rounded := roundHalfEven scaledNum scaledDen
    let digits := decimalDigits rounded
    ⟨digits.take count, unit + digits.length - 1⟩

/-! ## Layout -/

/-- The exponent of a power of ten: a sign and at least two digits. -/
def exponentText (power : Int) : String :=
  let digits := decimalDigits power.natAbs
  let padded := List.replicate (2 - digits.length) '0' ++ digits
  (if power < 0 then "-" else "+") ++ String.ofList padded

/-- Write digits positionally: zeros fill the places up to the point, and a
whole number keeps one zero after it. -/
def positional (number : Digits) : String :=
  if number.power < 0 then
    let zeros := List.replicate (-number.power - 1).toNat '0'
    "0." ++ String.ofList (zeros ++ number.digits)
  else
    let whole := number.power.toNat + 1
    let padded := number.digits ++ List.replicate (whole - number.digits.length) '0'
    let fraction := padded.drop whole
    let fraction := if fraction.isEmpty then ['0'] else fraction
    String.ofList (padded.take whole) ++ "." ++ String.ofList fraction

/-- Write digits with an exponent; a single digit stands without a point. -/
def scientific (number : Digits) : String :=
  let mantissa :=
    match number.digits with
    | [] => ""
    | [digit] => String.ofList [digit]
    | digit :: rest => String.ofList (digit :: '.' :: rest)
  mantissa ++ "e" ++ exponentText number.power

/-- The smallest power of ten that is written positionally. -/
def firstPositional : Int := -4

/-- The smallest power of ten above those written positionally. -/
def firstScientific : Int := 16

end Decimal

/-- The shown text of a double: the fewest digits that read back as it. -/
def Binary64.text : Binary64 → String
  | .nan => "nan"
  | .infinite negative => if negative then "-inf" else "inf"
  | .finite negative significand exponent =>
      let sign := if negative then "-" else ""
      if significand = 0 then
        sign ++ "0.0"
      else
        let number := Decimal.shortest significand exponent
        if Decimal.firstPositional ≤ number.power
            ∧ number.power < Decimal.firstScientific then
          sign ++ Decimal.positional number
        else
          sign ++ Decimal.scientific number

end CueScript
