import CueScript.Number.Binary64

/-!
# Integers and doubles together

Arithmetic and comparison accept integers and doubles side by side.  Comparison
is exact: neither operand is rounded to the type of the other.
-/

namespace CueScript

/-- An operand of arithmetic. -/
inductive Numeric where
  | int (number : Int)
  | float (number : Binary64)
  deriving DecidableEq, Repr

namespace Numeric

/-- The exact order of two operands; none when one is not a number. -/
def compare? : Numeric → Numeric → Option Ordering
  | .int a, .int b => some (compare a b)
  | .float x, .float y => x.compare? y
  | .float x, .int b => x.compareWith? (b, 1)
  | .int a, .float y => (y.compareWith? (a, 1)).map Ordering.swap

/-- Whether two operands are the same number. -/
def equal (x y : Numeric) : Bool := x.compare? y == some .eq

/-- An operand as a double, if an integer is not too large for one. -/
def toDouble? : Numeric → Option Binary64
  | .float x => some x
  | .int n =>
      match Binary64.ofInt n with
      | .infinite _ => none
      | x => some x

end Numeric

end CueScript
