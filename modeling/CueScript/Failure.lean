/-!
# Failures of primitive operations

A primitive operation can fail for one of a few reasons.  `Failure.kindName` is
the kind that error texts mention, `Failure.text` the wording; both are fixed in
this module only.
-/

namespace CueScript

/-- Why a primitive operation failed. -/
inductive Failure where
  /-- An operand has a type the operation does not accept, or the number of
  arguments is wrong. -/
  | wrongType
  /-- A divisor is zero. -/
  | divisionByZero
  /-- A value lacks the operation that was to be used on it. -/
  | noAttribute
  /-- A map lacks the key. -/
  | noKey
  /-- A position lies outside a sequence; the text shows it. -/
  | indexOutOfBounds (index : String)
  /-- A form has lost the part that was to be evaluated. -/
  | lostPart
  /-- A map has got further entries while its keys were gone through. -/
  | changedSize
  /-- An operand of the right type has no acceptable value. -/
  | badValue
  /-- A number does not fit. -/
  | tooLarge
  /-- A result does not fit into memory. -/
  | outOfMemory
  /-- Nested work went deeper than the stack allows. -/
  | stackExhausted
  /-- The arguments of `hash-map` do not pair up. -/
  | oddMapArguments
  /-- The arguments of `assoc` after the map do not pair up. -/
  | unpairedAssoc
  /-- A text names no kind of event; the text shows it. -/
  | unknownEventKind (shown : String)
  /-- A value that is neither a vector nor a quote node has no payload; the text
  shows it. -/
  | notWrapper (shown : String)
  deriving DecidableEq, Repr

namespace Failure

/-- The kind of a failure. -/
def kindName : Failure → String
  | wrongType | notWrapper _ => "TypeError"
  | divisionByZero => "ZeroDivisionError"
  | noAttribute => "AttributeError"
  | noKey => "KeyError"
  | indexOutOfBounds _ | lostPart => "IndexError"
  | badValue | oddMapArguments | unpairedAssoc | unknownEventKind _ => "ValueError"
  | tooLarge => "OverflowError"
  | outOfMemory => "MemoryError"
  | changedSize => "RuntimeError"
  | stackExhausted => "RecursionError"

/-- The wording of a failure; failures of plain arithmetic and look-up have none
of their own. -/
def text : Failure → String
  | indexOutOfBounds index => "Index " ++ index ++ " out of bounds"
  | oddMapArguments => "hash-map requires an even number of arguments"
  | unpairedAssoc => "assoc requires key/value pairs"
  | unknownEventKind shown => "Unknown event type: " ++ shown
  | notWrapper shown => "not a vector or quoted form: " ++ shown
  | _ => "..."

end Failure

end CueScript
