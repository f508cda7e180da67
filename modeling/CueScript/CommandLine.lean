import CueScript.Catalog.Resolver
import CueScript.CommandLine.Invocation
import CueScript.Json
import CueScript.Session
import CueScript.Text.Paragraph

/-!
# The program on the command line

`CommandLine.run` carries out what a command line asks for: it lists the kinds of
event or the symbols of one, checks an expression, or runs one on an event.  The
result is what the program writes and its exit code: 0 for success, 1 for an
expression that does not compile or fails, 2 for anything else.
-/

namespace CueScript

namespace CommandLine

/-- What the program writes and its exit code. -/
structure Output where
  exit : Int
  stdout : String
  stderr : String
  deriving DecidableEq, Repr

/-- What the surroundings of the program supply: the time in log lines, the text that
explains the use of the program, and the lines that follow an error that no command
expects. -/
structure Surroundings where
  time : String
  usage : String
  trace : String
  deriving DecidableEq, Repr

/-- The exit code for success. -/
def exitOk : Int := 0

/-- The exit code for an expression that does not compile or fails. -/
def exitError : Int := 1

/-- The exit code for anything else that goes wrong. -/
def exitUnusable : Int := 2

/-- The name of the program. -/
def programName : String := "triggerexpr"

/-- The version of the program. -/
def version : String := "0.1.0"

/-- Lines, each with a line end. -/
def linesText (lines : List String) : String := String.join (lines.map fun line => line ++ "\n")

/-- An error that ends the program. -/
def failing (exit : Int) (lines : List String) : Output := ⟨exit, "", linesText lines⟩

/-! ## Log lines -/

/-- The severity of a log line. -/
inductive LineLevel where
  | debug
  | warning
  | error
  deriving DecidableEq, Repr

/-- The five letters that a log line has for its severity. -/
def LineLevel.letters : LineLevel → String
  | debug => "DEBUG"
  | warning => "WARNI"
  | error => "ERROR"

/-- A log line of a part of the program. -/
def logLine (around : Surroundings) (level : LineLevel) (part message : String) : String :=
  around.time ++ " [" ++ level.letters ++ "] " ++ part ++ ": " ++ message

/-- The part of the program that compiles. -/
def compilerName : String := programName ++ ".compiler"

/-- The log lines about settings. -/
def configLines (around : Surroundings) (config : Config) : List String :=
  config.warnings.map fun warning =>
    logLine around .warning programName ("Config: " ++ warning)

/-- The log lines of compiling; they are written for the highest verbosity only. -/
def compileLines (around : Surroundings) (verbosity : Nat) (records : List LogRecord) :
    List String :=
  if verbosity < 2 then
    []
  else
    records.map fun record => logLine around .debug compilerName record.message

/-- The log lines for an error that no command expects. -/
def unexpectedLines (around : Surroundings) (message : String) : List String :=
  [logLine around .error programName ("Unhandled exception: " ++ message), around.trace]

/-! ## Lists of kinds and symbols -/

/-- A text with blanks after it up to a width. -/
def padded (width : Nat) (text : String) : String :=
  text ++ String.ofList (List.replicate (width - text.length) ' ')

/-- The line about a kind of event. -/
def kindLine (kind : EventKind) (own : BindingSet) : String :=
  let parents :=
    if own.parents.isEmpty then
      "-"
    else
      String.intercalate ", " (own.parents.map EventKind.tag)
  padded 14 kind.tag ++ " inherits: " ++ padded 14 parents ++
    s!" own bindings: {own.bindings.length}"

/-- List the kinds of event with their parents. -/
def runTypes : Output :=
  ⟨exitOk, linesText (Catalog.standard.map fun entry => kindLine entry.1 entry.2), ""⟩

/-- The lines about a symbol: its name, its code and its help text. -/
def bindingLines (binding : Binding) : List String :=
  let help :=
    if binding.doc.isEmpty then
      []
    else
      (Text.paragraph 72 binding.doc.toList).map fun line => "    " ++ String.ofList line
  [binding.name, "    " ++ binding.code] ++ help ++ [""]

/-- List the symbols that expressions for a kind of event may use. -/
def runBindings (kind : EventKind) (namesOnly : Bool) : Output :=
  let table := (Resolver.standard.resolve kind).1
  let sorted := table.mergeSort fun a b => decide (a.1 ≤ b.1)
  if namesOnly then
    ⟨exitOk, linesText (sorted.map Prod.fst), ""⟩
  else
    let lineage := kind :: Catalog.standard.lineage.ancestors kind
    let heading := String.intercalate " <- " (lineage.map EventKind.tag) ++
      s!": {table.length} bindings"
    let lines := [heading, ""] ++ sorted.flatMap fun entry => bindingLines entry.2
    ⟨exitOk, linesText lines, ""⟩

/-! ## Expressions -/

/-- The settings for an expression. -/
def configOf (verbosity : Nat) (options : ExpressionOptions) : Config :=
  { maxDepth := options.maxDepth, logTracebacks := 0 < verbosity }

/-- The text of an expression. -/
def textOf (options : ExpressionOptions) (stdin : String) : String :=
  if options.text = "-" then stdin else options.text

/-- Compile an expression. -/
def compile (verbosity : Nat) (options : ExpressionOptions) (stdin : String)
    (globals : Nat) : StateM Heap Expression.Compilation :=
  let source : ExpressionSource :=
    { text := textOf options stdin
      table := (Resolver.standard.resolve options.kind).1
      nullSafe := options.nullSafe
      config := configOf verbosity options }
  Expression.compile source globals

/-- The output for an error report: an expression that does not compile or fails, or
something that the command does not expect. -/
def reportOutput (around : Surroundings) (isExpected : ErrorClass → Bool)
    (before : List String) (report : Report) : Output :=
  if isExpected report.errorClass then
    failing exitError (before ++ [report.text])
  else
    failing exitUnusable (before ++ unexpectedLines around report.text)

/-- The output for a failure in writing a result. -/
def failureOutput (around : Surroundings) (before : List String) (failure : Failure) :
    Output :=
  failing exitUnusable (before ++ unexpectedLines around failure.text)

/-- Compile an expression and show the symbols it binds and its function. -/
def runCheck (around : Surroundings) (verbosity : Nat) (options : ExpressionOptions)
    (stdin : String) : StateM Heap Output := do
  let globals ← modifyGet fun heap => heap.openStore Session.globalsName []
  let compiled ← compile verbosity options stdin globals
  let before := configLines around (configOf verbosity options) ++
    compileLines around verbosity compiled.logs
  match compiled.outcome with
  | .error report => return reportOutput around ErrorClass.isCompileError before report
  | .ok expression =>
      let names :=
        if expression.references.isEmpty then
          "(none)"
        else
          String.intercalate ", " expression.boundSymbols
      match (← get).source expression.form with
      | .error failure => return failureOutput around before failure
      | .ok form =>
          return ⟨exitOk, linesText ["binds: " ++ names, form], linesText before⟩

/-- The name of a JSON value's type, as error texts show it. -/
def jsonTypeName (value : Value) : String := value.className

/-- The entries of an object that is given as JSON; nothing stands for an empty
one. -/
def loadObject (around : Surroundings) (text : Option String) (label : String) :
    Except Output (List (Value × Value)) :=
  let given := text.getD ""
  if given.isEmpty then
    pure []
  else
    match Json.parse? given.toList with
    | none =>
        throw (failing exitUnusable
          [logLine around .error programName ("Invalid " ++ label ++ " JSON: ...")])
    | some (.map entries _) => pure entries
    | some other =>
        throw (failing exitUnusable
          [logLine around .error programName
            (label ++ " JSON must be an object, got " ++ jsonTypeName other)])

/-- Show the result of an expression and the description it has published. -/
def resultOutput (around : Surroundings) (before : List String) (expression : Expression)
    (result : Value) (heap : Heap) : Output :=
  let shown : Except Failure (List String) := do
    let value ← heap.source result
    match expression.description heap with
    | .nil => pure [value]
    | description => do
        let text ← heap.display description
        pure [value, "description: " ++ text]
  match shown with
  | .error failure => failureOutput around before failure
  | .ok lines => ⟨exitOk, linesText lines, linesText before⟩

/-- Compile an expression and run it on an event. -/
def runEval (around : Surroundings) (verbosity : Nat) (options : ExpressionOptions)
    (event globals : Option String) (stdin : String) : StateM Heap Output := do
  match loadObject around event "event", loadObject around globals "globals" with
  | .error output, _ => return output
  | _, .error output => return output
  | .ok members, .ok entries => do
      let prepared ← Expression.observed do
        let data ← Expression.tellApart (.map members 0)
        let contents ← Expression.tellApart (.map entries 0)
        let status ←
          if (event.getD "").isEmpty then
            pure Value.nil
          else
            Event.ofMap (.kind options.kind) data
        match contents with
        | .map told _ => return (status, told)
        | _ => return (status, entries)
      match prepared with
      | .error (.failed failure) => return failureOutput around [] failure
      | .error _ => return failureOutput around [] .wrongType
      | .ok (status, contents) => do
          let store ← modifyGet fun heap => heap.openStore Session.globalsName contents
          let compiled ← compile verbosity options stdin store
          let before := configLines around (configOf verbosity options) ++
            compileLines around verbosity compiled.logs
          match compiled.outcome with
          | .error report =>
              return reportOutput around ErrorClass.isFromExpression before report
          | .ok expression =>
              match ← expression.callStrictly { event := status } with
              | .error report =>
                  return reportOutput around ErrorClass.isFromExpression before report
              | .ok result => return resultOutput around before expression result (← get)

/-- Carry out what a command line asks for. -/
def run (around : Surroundings) (argv : List String) (stdin : String) : Output :=
  match Invocation.ofWords argv with
  | .mistake => ⟨exitUnusable, "", around.usage⟩
  | .help => ⟨exitOk, around.usage, ""⟩
  | .version => ⟨exitOk, programName ++ " " ++ version ++ "\n", ""⟩
  | .nothing _ => ⟨exitUnusable, "", around.usage⟩
  | .command _ .types => runTypes
  | .command _ (.bindings kind namesOnly) => runBindings kind namesOnly
  | .command verbosity (.check options) =>
      ((runCheck around verbosity options stdin).run Heap.empty).1
  | .command verbosity (.eval options event globals) =>
      ((runEval around verbosity options event globals stdin).run Heap.empty).1

end CommandLine

end CueScript
