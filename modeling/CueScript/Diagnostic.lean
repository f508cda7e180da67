import CueScript.Diagnostic.Code
import CueScript.Diagnostic.Span
import CueScript.Text.Blank
import CueScript.Text.Quoted

/-!
# Diagnostics

A `Diagnostic` is an error message with its place, severity, hint and the source
line it is about; `Diagnostic.text` lays it out with a caret under the place.

A `Report` is a diagnostic as it is raised: with the class of the error, the class
of its cause and the data of that class.
-/

namespace CueScript

/-- An error message with all its context. -/
structure Diagnostic where
  code : ErrorCode
  message : String
  span : Span
  severity : Severity
  hint : String
  sourceLine : String
  deriving DecidableEq, Repr, Inhabited

namespace Diagnostic

/-- The caret line: it starts below the column and is at least one caret long. -/
def caretLine (span : Span) : String :=
  let width := max 1 (span.endColumn - span.column)
  String.ofList
    (List.replicate (span.column - 1).toNat ' ' ++ List.replicate width.toNat '^')

/-- The layout of a diagnostic: the message with its place, the source line with a
caret below it, and the hint. -/
def text (diagnostic : Diagnostic) : String :=
  let heading := diagnostic.span.text ++ ": " ++ diagnostic.severity.text ++ ": " ++
    diagnostic.message ++ " [" ++ diagnostic.code.text ++ "]"
  let line :=
    if diagnostic.sourceLine.isEmpty then [] else ["    " ++ diagnostic.sourceLine]
  let caret :=
    if diagnostic.sourceLine.isEmpty ∨ diagnostic.span.column ≤ 0 then
      []
    else
      ["    " ++ caretLine diagnostic.span]
  let hint := if diagnostic.hint.isEmpty then [] else ["hint: " ++ diagnostic.hint]
  String.intercalate "\n" (heading :: (line ++ caret ++ hint))

end Diagnostic

/-- The classes of errors, from the general to the special. -/
inductive ErrorClass where
  | base
  | compile
  | read
  | unbalancedForm
  | unterminatedString
  | catalog
  | evaluation
  | unboundSymbol
  | arity
  | interop
  | recursionLimit
  deriving DecidableEq, Repr, Inhabited

namespace ErrorClass

/-- All classes. -/
def all : List ErrorClass := [
  base, compile, read, unbalancedForm, unterminatedString, catalog, evaluation,
  unboundSymbol, arity, interop, recursionLimit]

/-- The name of a class. -/
def name : ErrorClass → String
  | base => "TriggerExprError"
  | compile => "CompileError"
  | read => "ReadError"
  | unbalancedForm => "UnbalancedFormError"
  | unterminatedString => "UnterminatedStringError"
  | catalog => "CatalogError"
  | evaluation => "EvaluationError"
  | unboundSymbol => "UnboundSymbolError"
  | arity => "ArityError"
  | interop => "InteropError"
  | recursionLimit => "RecursionLimitError"

/-- The class with a given name. -/
def ofName? (text : String) : Option ErrorClass := all.find? fun each => each.name == text

/-- Whether an error of this class says that a text cannot be compiled. -/
def isCompileError : ErrorClass → Bool
  | compile | read | unbalancedForm | unterminatedString => true
  | _ => false

/-- Whether an error of this class arises in running an expression. -/
def isEvaluationError : ErrorClass → Bool
  | evaluation | unboundSymbol | arity | interop | recursionLimit => true
  | _ => false

/-- Whether an error of this class comes from compiling or running an expression. -/
def isFromExpression (errorClass : ErrorClass) : Bool :=
  errorClass.isCompileError || errorClass.isEvaluationError

end ErrorClass

/-- What an error of some class holds besides its diagnostic. -/
inductive ErrorDetail where
  | plain
  | expected (delimiter : String)
  | symbol (name : String)
  | arity (name expected : String) (got : Int)
  | member (name : String)
  | limit (depth : Int)
  deriving DecidableEq, Repr, Inhabited

/-- A raised diagnostic. -/
structure Report where
  errorClass : ErrorClass
  diagnostic : Diagnostic
  detail : ErrorDetail
  cause : Option String
  deriving DecidableEq, Repr, Inhabited

namespace Report

/-- The text of a report is that of its diagnostic. -/
def text (report : Report) : String := report.diagnostic.text

/-- The message of a report. -/
def message (report : Report) : String := report.diagnostic.message

/-- The same report with a cause. -/
def withCause (cause : String) (report : Report) : Report :=
  { report with cause := some cause }

/-- The line of a text that a span is about, or nothing if there is no such line. -/
def sourceLine (sourceText : String) (span : Span) : String :=
  if 0 < span.line then
    match (Text.lines sourceText.toList)[span.line.toNat - 1]? with
    | some line => String.ofList line
    | none => ""
  else
    ""

/-! ## Errors of each class -/

/-- What may be given when an error is built by hand. -/
structure Fields where
  message : Option String := none
  code : Option ErrorCode := none
  span : Option Span := none
  severity : Option Severity := none
  hint : Option String := none
  sourceText : Option String := none
  expected : Option String := none
  name : Option String := none
  got : Option Int := none
  memberName : Option String := none
  targetClass : Option String := none
  limit : Option Int := none
  deriving Inhabited

/-- Build an error with a message from the optional fields. -/
def ofFields (errorClass : ErrorClass) (defaultCode : ErrorCode) (message : String)
    (detail : ErrorDetail) (fields : Fields) : Report :=
  let code := fields.code.getD defaultCode
  let span := fields.span.getD .unknown
  { errorClass := errorClass
    diagnostic :=
      { code := code
        message := message
        span := span
        severity := fields.severity.getD code.severity
        hint := fields.hint.getD ""
        sourceLine := sourceLine (fields.sourceText.getD "") span }
    detail := detail
    cause := none }

/-- The message that a string literal is not closed. -/
def unterminatedMessage : String :=
  "Unterminated string literal (missing closing \")"

/-- The message that a symbol has no value. -/
def unboundMessage (name : String) : String := "Unable to resolve symbol: " ++ name

/-- The message that a number of arguments is wrong. -/
def arityMessage (name expected : String) (got : Int) : String :=
  s!"Wrong number of args ({got}) passed to {name}, expected {expected}"

/-- The message that a value has no such member. -/
def interopMessage (member className : String) : String :=
  "No member " ++ Text.quoted member ++ " on " ++ className

/-- The message that evaluation nested too deeply. -/
def recursionMessage (limit : Int) : String :=
  s!"Evaluation exceeded maximum depth of {limit}"

/-- The hint that names a missing delimiter, unless a hint is given or nothing is
expected. -/
def expectedHint (expected : String) (given : Option String) : Option String :=
  if given.getD "" = "" ∧ expected ≠ "" then
    some ("Expected " ++ Text.quoted expected)
  else
    given

/-- Build an error of a class.  Nothing is built when a field that the class needs
is missing, when one is given that the class settles itself, or when one is given
that it does not have. -/
def build? (errorClass : ErrorClass) (fields : Fields) : Option Report :=
  let runtimeOnly := fields.sourceText.isNone && fields.expected.isNone
  let noRuntime := fields.name.isNone && fields.got.isNone && fields.memberName.isNone
    && fields.targetClass.isNone && fields.limit.isNone
  let settled := fields.message.isNone && fields.code.isNone
  match errorClass with
  | .base =>
      if runtimeOnly && noRuntime then
        fields.message.map fun message =>
          ofFields .base .internalError message .plain fields
      else
        none
  | .compile | .read =>
      if fields.expected.isNone && noRuntime then
        fields.message.map fun message =>
          ofFields errorClass .malformedForm message .plain fields
      else
        none
  | .unbalancedForm =>
      if noRuntime then
        fields.message.map fun message =>
          let expected := fields.expected.getD ""
          ofFields .unbalancedForm .unbalancedDelimiter message (.expected expected)
            { fields with hint := expectedHint expected fields.hint }
      else
        none
  | .unterminatedString =>
      if settled && fields.hint.isNone && fields.expected.isNone && noRuntime then
        some (ofFields .unterminatedString .unterminatedString unterminatedMessage .plain
          { fields with hint := some "Add the closing quote character" })
      else
        none
  | .catalog =>
      if runtimeOnly && noRuntime then
        fields.message.map fun message =>
          ofFields .catalog .invalidBinding message .plain fields
      else
        none
  | .evaluation =>
      if runtimeOnly && noRuntime then
        fields.message.map fun message =>
          ofFields .evaluation .executionError message .plain fields
      else
        none
  | .unboundSymbol =>
      if settled && runtimeOnly && fields.got.isNone then
        fields.name.map fun name =>
          ofFields .unboundSymbol .undefinedSymbol (unboundMessage name) (.symbol name) fields
      else
        none
  | .arity =>
      match settled && fields.sourceText.isNone, fields.name, fields.expected, fields.got with
      | true, some name, some expected, some got =>
          some (ofFields .arity .arityMismatch (arityMessage name expected got)
            (.arity name expected got) fields)
      | _, _, _, _ => none
  | .interop =>
      match settled && runtimeOnly, fields.memberName, fields.targetClass with
      | true, some member, some className =>
          some (ofFields .interop .interopFailure (interopMessage member className)
            (.member member) fields)
      | _, _, _ => none
  | .recursionLimit =>
      if settled && runtimeOnly then
        fields.limit.map fun limit =>
          ofFields .recursionLimit .recursionLimit (recursionMessage limit) (.limit limit)
            fields
      else
        none

end Report

end CueScript
