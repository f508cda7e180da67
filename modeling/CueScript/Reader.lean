import CueScript.Diagnostic
import CueScript.Reader.Sequence

/-!
# Reading expressions

`read` turns a text into its forms: the delimiters are checked first, so that a
fault is blamed on the right place, a blank text has no forms, and any other text
is read as a sequence.  `readOne` asks for exactly one form.
-/

namespace CueScript

/-- Why a text does not read. -/
inductive ReadFault where
  | delimiters (fault : DelimiterFault)
  | sequence (fault : SequenceFault)
  | formCount (count : Nat)
  deriving DecidableEq, Repr

namespace ReadFault

/-- The report of a fault in the delimiters. -/
def delimiterReport (text : List Char) (filename : String) :
    DelimiterFault → Report
  | .unterminatedString offset =>
      Report.ofFields .unterminatedString .unterminatedString Report.unterminatedMessage
        .plain
        { span := some (Span.atOffset text offset filename)
          sourceText := some (String.ofList text)
          hint := some "Add the closing quote character" }
  | .strayCloser offset closer =>
      Report.ofFields .unbalancedForm .unbalancedDelimiter
        ("Unmatched delimiter: " ++ closer.closer.toString) (.expected "")
        { span := some (Span.atOffset text offset filename)
          sourceText := some (String.ofList text) }
  | .mismatchedCloser offset closer expected =>
      let wanted := expected.closer.toString
      Report.ofFields .unbalancedForm .unbalancedDelimiter
        ("Unmatched delimiter: " ++ closer.closer.toString ++ ", expected " ++ wanted)
        (.expected wanted)
        { span := some (Span.atOffset text offset filename)
          sourceText := some (String.ofList text)
          hint := Report.expectedHint wanted none }
  | .unclosed offset opener =>
      let wanted := opener.closer.toString
      let span := Span.atOffset text offset filename
      Report.ofFields .unbalancedForm .unexpectedEof
        (s!"EOF while reading, starting at line {span.line}") (.expected wanted)
        { span := some span
          sourceText := some (String.ofList text)
          hint := Report.expectedHint wanted none }

/-- The report of a fault in reading a text under a file name. -/
def report (text : List Char) (filename : String) : ReadFault → Report
  | .delimiters fault => delimiterReport text filename fault
  | .sequence fault =>
      (Report.ofFields .read .malformedForm ("Unable to read expression: " ++ fault.text)
        .plain { span := some (Span.inFile filename) }).withCause fault.className
  | .formCount count =>
      Report.ofFields .read .malformedForm
        (s!"Expected exactly one form, found {count}") .plain
        { span := some (Span.inFile filename) }

end ReadFault

/-- The forms of a text, or why it does not read. -/
def read (text : List Char) : Except ReadFault (List Value) := do
  let _ ← (checkDelimiters text).mapError ReadFault.delimiters
  if (Text.strip text).isEmpty then
    pure []
  else
    (readSequence text).mapError ReadFault.sequence

/-- The only form of a text. -/
def readOne (text : List Char) : Except ReadFault Value := do
  match ← read text with
  | [form] => pure form
  | forms => throw (.formCount forms.length)

end CueScript
