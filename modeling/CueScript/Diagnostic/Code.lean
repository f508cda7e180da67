/-!
# Error codes

Every diagnostic has a code of the form `EXPR-NNNN`.  The thousands digit gives
the phase: 1 reading, 2 catalogs, 3 compiling, 5 running, 9 internal errors.  A
code fixes its category and the severity it has unless a diagnostic says otherwise.
-/

namespace CueScript

/-- How serious a diagnostic is. -/
inductive Severity where
  | fatal
  | error
  | warning
  | info
  deriving DecidableEq, Repr, Inhabited

namespace Severity

/-- All severities. -/
def all : List Severity := [fatal, error, warning, info]

/-- The word for a severity. -/
def text : Severity → String
  | fatal => "fatal"
  | error => "error"
  | warning => "warning"
  | info => "info"

end Severity

/-- The stage at which a diagnostic arises. -/
inductive Phase where
  | read
  | catalog
  | compile
  | runtime
  | internal
  deriving DecidableEq, Repr

namespace Phase

/-- The word for a phase. -/
def text : Phase → String
  | read => "read"
  | catalog => "catalog"
  | compile => "compile"
  | runtime => "runtime"
  | internal => "internal"

end Phase

/-- The codes of all diagnostics. -/
inductive ErrorCode where
  | unterminatedString
  | unbalancedDelimiter
  | unexpectedEof
  | malformedForm
  | invalidBinding
  | unknownParent
  | circularInheritance
  | invalidSpecialForm
  | executionError
  | undefinedSymbol
  | arityMismatch
  | interopFailure
  | recursionLimit
  | internalError
  deriving DecidableEq, Repr, Inhabited

namespace ErrorCode

/-- All codes, by number. -/
def all : List ErrorCode := [
  unterminatedString, unbalancedDelimiter, unexpectedEof, malformedForm,
  invalidBinding, unknownParent, circularInheritance, invalidSpecialForm,
  executionError, undefinedSymbol, arityMismatch, interopFailure, recursionLimit,
  internalError]

/-- The number of a code. -/
def number : ErrorCode → Nat
  | unterminatedString => 1001
  | unbalancedDelimiter => 1002
  | unexpectedEof => 1003
  | malformedForm => 1004
  | invalidBinding => 2001
  | unknownParent => 2002
  | circularInheritance => 2003
  | invalidSpecialForm => 3001
  | executionError => 5000
  | undefinedSymbol => 5001
  | arityMismatch => 5002
  | interopFailure => 5003
  | recursionLimit => 5004
  | internalError => 9000

/-- The name of a code, which is also the name of its category. -/
def category : ErrorCode → String
  | unterminatedString => "UNTERMINATED_STRING"
  | unbalancedDelimiter => "UNBALANCED_DELIMITER"
  | unexpectedEof => "UNEXPECTED_EOF"
  | malformedForm => "MALFORMED_FORM"
  | invalidBinding => "INVALID_BINDING"
  | unknownParent => "UNKNOWN_PARENT"
  | circularInheritance => "CIRCULAR_INHERITANCE"
  | invalidSpecialForm => "INVALID_SPECIAL_FORM"
  | executionError => "EXECUTION_ERROR"
  | undefinedSymbol => "UNDEFINED_SYMBOL"
  | arityMismatch => "ARITY_MISMATCH"
  | interopFailure => "INTEROP_FAILURE"
  | recursionLimit => "RECURSION_LIMIT"
  | internalError => "INTERNAL_ERROR"

/-- The phase a code belongs to. -/
def phase (code : ErrorCode) : Phase :=
  match code.number / 1000 with
  | 1 => .read
  | 2 => .catalog
  | 3 => .compile
  | 5 => .runtime
  | _ => .internal

/-- The severity of a code's diagnostics unless they give their own: faults of a
catalog and internal ones are fatal. -/
def severity (code : ErrorCode) : Severity :=
  match code.phase with
  | .catalog | .internal => .fatal
  | _ => .error

/-- The text of a code. -/
def text (code : ErrorCode) : String := s!"EXPR-{code.number}"

/-- The text that shows a code with its category. -/
def shown (code : ErrorCode) : String :=
  "ErrorCode('" ++ code.text ++ "', " ++ code.category ++ ")"

/-- The code with a given name. -/
def ofName? (name : String) : Option ErrorCode :=
  all.find? fun code => code.category == name

end ErrorCode

end CueScript
