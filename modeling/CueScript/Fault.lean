import CueScript.Diagnostic
import CueScript.Failure

/-!
# Faults of evaluation

Evaluation can fail in the ways the language itself detects (an unbound symbol, a
wrong number of arguments, ...) or because a primitive operation failed.
`Fault.report?` gives the report of the former; the latter have none until a call
of a compiled expression wraps them.
-/

namespace CueScript

/-- Why an evaluation failed. -/
inductive Fault where
  /-- A symbol has no value. -/
  | unbound (name : String)
  /-- A function, form or member is used with the wrong number of arguments. -/
  | arity (name expected : String) (got : Nat)
  /-- A special form has the wrong shape; the text says how. -/
  | malformed (message : String)
  /-- What stands at the head of a call is no function. -/
  | notFunction (label shown : String)
  /-- A value has no such member. -/
  | noMember (name className : String)
  /-- Evaluation nested deeper than the limit. -/
  | depthExceeded (limit : Int)
  /-- A primitive operation failed. -/
  | failed (failure : Failure)
  deriving DecidableEq, Repr

namespace Fault

/-- The report of a fault that the language detects. -/
def report? : Fault → Option Report
  | unbound name =>
      some (Report.ofFields .unboundSymbol .undefinedSymbol (Report.unboundMessage name)
        (.symbol name) {})
  | arity name expected got =>
      some (Report.ofFields .arity .arityMismatch (Report.arityMessage name expected got)
        (.arity name expected got) {})
  | malformed message =>
      some (Report.ofFields .evaluation .invalidSpecialForm message .plain {})
  | notFunction label shown =>
      some (Report.ofFields .evaluation .executionError
        (label ++ " is not a function: " ++ shown) .plain {})
  | noMember name className =>
      some (Report.ofFields .interop .interopFailure (Report.interopMessage name className)
        (.member name) {})
  | depthExceeded limit =>
      some (Report.ofFields .recursionLimit .recursionLimit (Report.recursionMessage limit)
        (.limit limit) {})
  | failed _ => none

/-- The class of a fault, as logs and causes name it. -/
def className : Fault → String
  | failed failure => failure.kindName
  | fault =>
      match fault.report? with
      | some report => report.errorClass.name
      | none => ""

end Fault

end CueScript
