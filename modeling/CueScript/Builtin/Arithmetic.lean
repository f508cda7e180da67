import CueScript.Action
import CueScript.Text.Template
import CueScript.Value.Order

/-!
# Arithmetic

Integers are exact.  An operation on an integer and a double rounds the integer
first and fails when it is too large for a double.  Division of two integers gives
the double nearest to the quotient.  Remainders have the sign of the divisor.

Texts and lists can be multiplied by an integer, which repeats them, and the
remainder of a text by anything fills it as a template.
-/

namespace CueScript

namespace Arithmetic

-- Powers are those of the core library, also beside a library that has powers of its own.
attribute [local instance (2000)] instPowNat

/-- The operands of an operation as numbers. -/
def operands (a b : Value) : Action (Numeric × Numeric) :=
  match a.toNumeric?, b.toNumeric? with
  | some x, some y => return (x, y)
  | _, _ => Action.fail .wrongType

/-- An operand as a double. -/
def toDouble (x : Numeric) : Action Binary64 :=
  match x.toDouble? with
  | some double => return double
  | none => Action.fail .tooLarge

/-- Do an operation exactly on integers and in doubles otherwise. -/
def combine (exact : Int → Int → Int) (rounded : Binary64 → Binary64 → Binary64)
    (a b : Value) : Action Value := do
  match ← operands a b with
  | (.int x, .int y) => return .int (exact x y)
  | (x, y) => do
      let left ← toDouble x
      let right ← toDouble y
      Action.newFloat (rounded left right)

/-- The sum of two values. -/
def add (a b : Value) : Action Value := combine (· + ·) Binary64.add a b

/-- The difference of two values. -/
def subtract (a b : Value) : Action Value := combine (· - ·) Binary64.sub a b

/-- The opposite of a value. -/
def negate (a : Value) : Action Value :=
  match a.toNumeric? with
  | some (.int x) => return .int (-x)
  | some (.float x) => Action.newFloat x.neg
  | none => Action.fail .wrongType

/-- The absolute value. -/
def absolute (a : Value) : Action Value :=
  match a.toNumeric? with
  | some (.int x) => return .int x.natAbs
  | some (.float x) => Action.newFloat x.abs
  | none => Action.fail .wrongType

/-! ## Products -/

/-- One more than the greatest count of repetitions. -/
def countBound : Int := 2 ^ (63 : Nat)

/-- The greatest length of a repeated text or list. -/
def lengthBound : Nat := 2 ^ (34 : Nat)

/-- How often something of some length is repeated: not at all for a negative
count.  Too long a result fails. -/
def repetitions (length : Nat) (count : Int) (tooLong : Failure) : Action Nat :=
  if count < -countBound ∨ countBound ≤ count then
    Action.fail .tooLarge
  else if countBound.toNat ≤ length * count.toNat then
    Action.fail tooLong
  else if lengthBound < length * count.toNat then
    Action.fail .outOfMemory
  else
    return count.toNat

/-- The items of a list, repeated. -/
def repeatItems {α : Type} (items : List α) (count : Nat) : List α :=
  (List.replicate count items).flatten

/-- The product of two values: a text or list by an integer is repeated. -/
def multiply (a b : Value) : Action Value := do
  let repeatValue (value : Value) (count : Int) : Action Value := do
    match value.toText?, value.toTuple?, value with
    | some text, _, _ =>
        let times ← repetitions text.length count .tooLarge
        return .str (String.ofList (repeatItems text.toList times))
    | none, some items, _ =>
        let times ← repetitions items.length count .outOfMemory
        return .tuple (repeatItems items times)
    | none, none, .list items _ =>
        let times ← repetitions items.length count .outOfMemory
        Action.newList (repeatItems items times)
    | none, none, _ => Action.fail .wrongType
  match a.toInt?, b.toInt? with
  | some x, some y => return .int (x * y)
  | some count, none =>
      if b.toNumeric?.isSome then
        combine (· * ·) Binary64.mul a b
      else
        repeatValue b count
  | none, some count =>
      if a.toNumeric?.isSome then
        combine (· * ·) Binary64.mul a b
      else
        repeatValue a count
  | none, none => combine (· * ·) Binary64.mul a b

/-! ## Quotients and remainders -/

/-- The double nearest to the quotient of two integers.  It is negative, even when
it is zero, if exactly one operand is. -/
def quotientOfInts (x y : Int) : Action Binary64 :=
  if y = 0 then
    Action.fail .divisionByZero
  else
    match Binary64.ofQuotient ((x < 0) != (y < 0)) x.natAbs y.natAbs with
    | .infinite _ => Action.fail .tooLarge
    | double => return double

/-- The quotient of two values as a double. -/
def quotient (a b : Value) : Action Binary64 := do
  match ← operands a b with
  | (.int x, .int y) => quotientOfInts x y
  | (x, y) => do
      let left ← toDouble x
      let right ← toDouble y
      if right.isZero then
        Action.fail .divisionByZero
      else
        return left.div right

/-- The quotient of two values. -/
def divide (a b : Value) : Action Value := do
  Action.newFloat (← quotient a b)

/-- The integer part of a double. -/
def integerPart (x : Binary64) : Action Value :=
  match x.truncate?, x with
  | some whole, _ => return .int whole
  | none, .nan => Action.fail .badValue
  | none, _ => Action.fail .tooLarge

/-- Fill a template.  A template in which nothing is to be replaced is the result
itself, be it a string, a keyword or a symbol. -/
def fillTemplate (template : Value) (text : String) (arguments : Template.Arguments) :
    Action Value := do
  let filled ← Action.reading fun heap =>
    Template.fill ⟨heap.display, heap.shown⟩ text arguments
  if text.isEmpty || text.toList.contains '%' then
    return .str filled
  else
    return template

/-- The remainder of two values, or the text of a template filled with the second
one. -/
def modulo (a b : Value) : Action Value := do
  match a.toText? with
  | some text => fillTemplate a text (.ofValue b)
  | none =>
      match ← operands a b with
      | (.int x, .int y) =>
          if y = 0 then Action.fail .divisionByZero else return .int (Int.fmod x y)
      | (x, y) => do
          let left ← toDouble x
          let right ← toDouble y
          if right.isZero then
            Action.fail .divisionByZero
          else
            Action.newFloat (left.floorMod right)

/-! ## Chains of values -/

/-- Combine values from left to right. -/
def chain (operation : Value → Value → Action Value) : Value → List Value → Action Value
  | result, [] => return result
  | result, value :: rest => do
      let next ← operation result value
      chain operation next rest

/-- Whether a relation holds between each value and the next; the first pair for
which it does not ends the comparison. -/
def eachHolds (relation : Value → Value → Action Bool) : Value → List Value → Action Bool
  | _, [] => return true
  | previous, value :: rest => do
      if ← relation previous value then
        eachHolds relation value rest
      else
        return false

/-- The value that stands in a relation to all others: the first such, from left to
right. -/
def extreme (relation : Comparison) : Value → List Value → Action Value
  | best, [] => return best
  | best, value :: rest => do
      if ← Action.ofExcept (Value.compares relation value best) then
        extreme relation value rest
      else
        extreme relation best rest

end Arithmetic

end CueScript
