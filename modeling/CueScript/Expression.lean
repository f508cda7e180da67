import CueScript.Catalog.Standard
import CueScript.Eval
import CueScript.References
import CueScript.SpecialForm.Check
import CueScript.Value.Birth

/-!
# Expressions

Compiling turns the text of an expression into a closure of an event, the store of
the expression and the store that all expressions share.  The text is read, the
shape of its special forms is checked, and the convenience symbols it uses are bound
around it.  A compiled expression can be called many times; it is read only once.

A call is strict, when its failure is raised, or lenient, when the failure is logged
and `nil` is the result.
-/

namespace CueScript

/-- The levels of log records that compiling and running write. -/
inductive LogLevel where
  | debug
  | error
  deriving DecidableEq, Repr, Inhabited

/-- A log record; it may carry the class of a failure. -/
structure LogRecord where
  level : LogLevel
  message : String
  failureClass : Option String
  deriving DecidableEq, Repr, Inhabited

/-- A request to compile an expression. -/
structure ExpressionSource where
  text : String
  table : BindingTable
  /-- Symbols are `nil` where there is no event. -/
  nullSafe : Bool := false
  /-- The label in messages; the file name of the settings if there is none. -/
  name : Option String := none
  config : Config := {}
  /-- The lineage that `instance?` goes by; the standard one if there is none. -/
  lineage : Option Lineage := none

namespace ExpressionSource

/-- The label of an expression in messages. -/
def label (source : ExpressionSource) : String :=
  match source.name with
  | none => source.config.filename
  | some name => if name.isEmpty then source.config.filename else name

end ExpressionSource

/-- A compiled expression. -/
structure Expression where
  text : String
  name : String
  references : List Reference
  form : Value
  function : Value
  config : Config
  /-- The expression's own store. -/
  locals : Nat
  /-- The store it shares with others. -/
  globals : Nat

namespace Expression

/-! ## Compiling -/

/-- The parameters of a compiled expression. -/
def parameters : List String := [Reference.eventSymbol, "locals", "globals"]

/-- The function of an expression: its forms, with the symbols it uses bound around
them. -/
def synthesize (forms : List Value) (references : List Reference) : Value :=
  let body := Value.list (.symbol "do" :: forms) 0
  let bound :=
    if references.isEmpty then
      body
    else
      let pairs := references.flatMap fun each => [.symbol each.name, each.extract]
      .list [.symbol "let", .vector pairs 0, body] 0
  .list [.symbol "fn", .vector (parameters.map .symbol) 0, bound] 0

/-- The place of the list that a shape check entered last, given the number of lists
it entered; only the file if there is no such list in the text. -/
def placeOf (text : List Char) (listsSeen : Nat) (filename : String) : Span :=
  match checkDelimiters text, listsSeen with
  | .ok offsets, index + 1 =>
      match offsets[index]? with
      | some offset => Span.atOffset text offset filename
      | none => .inFile filename
  | _, _ => .inFile filename

/-- The report that a special form has the wrong shape: what evaluating the form
would raise, at the place of the form. -/
def shapeReport (text : List Char) (filename : String) (listsSeen : Nat)
    (raised : Report) : Report :=
  let fields : Report.Fields :=
    { span := some (placeOf text listsSeen filename)
      sourceText := some (String.ofList text) }
  (Report.ofFields .compile .invalidSpecialForm raised.message .plain fields).withCause
    raised.errorClass.name

/-- The report that evaluating a list of the wrong shape would raise. -/
def faultReport (heap : Heap) (form : List Value) (fault : ShapeFault) : Report :=
  match fault.toFault heap form with
  | .ok raised => raised.report?.getD default
  | .error failure =>
      Report.ofFields .evaluation .invalidSpecialForm failure.text .plain {}

/-- Read the forms of a text and check their shape. -/
def formsOf (heap : Heap) (text : List Char) (filename : String) :
    Except Report (List Value) := do
  let forms ← (read text).mapError fun fault => fault.report text filename
  let check := ShapeCheck.run forms
  match check.fault with
  | none => pure forms
  | some (form, fault) =>
      throw (shapeReport text filename check.listsSeen (faultReport heap form fault))

/-- The variables that every expression sees. -/
def rootVars (lineage : Option Lineage) : Action ValueEntries := do
  let vars := Builtin.table.map fun entry => (Value.str entry.1, Value.builtin entry.2)
  match lineage with
  | none => return vars
  | some each =>
      let test := Value.instanceTest (← Action.newId) each
      return Entries.put Value.sameKey (.str "instance?") test vars

/-- Make an evaluator and its outermost scope. -/
def openSite (config : Config) (lineage : Option Lineage) : Action Site := do
  let evaluator ← Action.change fun heap => heap.openEvaluator config
  let vars ← Action.newVariables (← rootVars lineage)
  let scope ← Action.change fun heap => heap.openScope vars none
  return ⟨evaluator, scope, 0⟩

/-- The names of references, as log records list them. -/
def namesText (references : List Reference) : String :=
  if references.isEmpty then
    "nothing"
  else
    String.intercalate ", " (references.map Reference.name)

/-- What compiling gives: an expression or a report, and the log records written on
the way. -/
structure Compilation where
  outcome : Except Report Expression
  logs : List LogRecord

/-- Give each list and map of a tree, and each literal that is no number, a number of
its own. -/
def tellApart (tree : Value) : Action Value :=
  Action.change fun heap =>
    let (told, next) := tree.tellApart heap.births
    (told, { heap with births := next })

/-- The symbols of a table with trees that are told apart. -/
def tellTableApart (table : BindingTable) : Action BindingTable :=
  table.mapM fun (name, binding) => do
    return (name, { binding with extract := ← tellApart binding.extract })

/-- A catalog with trees that are told apart.  All expressions that are compiled with
it then share the lists in its code. -/
def tellCatalogApart (catalog : Catalog) : Action Catalog :=
  catalog.mapM fun (kind, own) => do
    return (kind, { own with bindings := ← tellTableApart own.bindings })

/-- Run an action that cannot fail other than as observed. -/
def observed {α : Type} (action : Action α) : StateM Heap (Except Fault α) :=
  action.run

/-- Compile an expression; the given store is the one it shares. -/
def compile (source : ExpressionSource) (globals : Nat) : StateM Heap Compilation := do
  let label := source.label
  let text := source.text.toList
  match formsOf (← get) text label with
  | .error report => return ⟨.error report, []⟩
  | .ok forms => do
      let references := Reference.scan forms source.table source.nullSafe
      let compiling : LogRecord :=
        ⟨.debug, "Compiling " ++ label ++ ": binds " ++ namesText references, none⟩
      let outcome ← observed do
        let form ← tellApart (synthesize forms references)
        let site ← openSite source.config source.lineage
        let function ← Eval.perform (.evaluate site.evaluator site.scope form site.depth)
        return (form, function)
      match outcome with
      | .error fault =>
          return ⟨.error (fault.report?.getD default), [compiling]⟩
      | .ok (form, function) => do
          let written := (Heap.source (← get) form).toOption.getD ""
          let locals ← modifyGet fun heap => heap.openStore (label ++ " locals") []
          let expression : Expression :=
            { text := source.text
              name := label
              references := references
              form := form
              function := function
              config := source.config
              locals := locals
              globals := globals }
          return ⟨.ok expression, [compiling, ⟨.debug, "Synthesized " ++ written, none⟩]⟩

/-- The names of the symbols that an expression binds, in order. -/
def boundSymbols (expression : Expression) : List String :=
  expression.references.map Reference.name

/-- The text that shows an expression. -/
def shown (expression : Expression) : String :=
  "<CompiledExpression " ++ expression.name ++ " binds=[" ++
    String.intercalate ", " (expression.boundSymbols.map Text.quoted) ++ "]>"

/-! ## Calling -/

/-- What an expression is called with; its own stores are taken for those that are
not given. -/
structure Arguments where
  event : Value := .nil
  locals : Option Nat := none
  globals : Option Nat := none

/-- Run an expression. -/
def run (expression : Expression) (arguments : Arguments) :
    StateM Heap (Except Fault Value) :=
  let locals := arguments.locals.getD expression.locals
  let globals := arguments.globals.getD expression.globals
  observed (Eval.perform
    (.call expression.function [arguments.event, .store locals, .store globals]))

/-- The report of a fault in a strict call.  A fault that the language detects is
raised as it is; a failure of a primitive operation is wrapped. -/
def callReport (expression : Expression) (fault : Fault) : Report :=
  match fault.report? with
  | some report => report
  | none =>
      match fault with
      | .failed .stackExhausted =>
          let limit := expression.config.maxDepth
          (Report.ofFields .recursionLimit .recursionLimit (Report.recursionMessage limit)
            (.limit limit) {}).withCause fault.className
      | .failed failure =>
          (Report.ofFields .evaluation .executionError
            (expression.name ++ " failed: " ++ failure.kindName ++ ": " ++ failure.text)
            .plain {}).withCause failure.kindName
      | _ => default

/-- Call an expression; its failure is raised. -/
def callStrictly (expression : Expression) (arguments : Arguments) :
    StateM Heap (Except Report Value) := do
  match ← run expression arguments with
  | .ok value => return .ok value
  | .error fault => return .error (expression.callReport fault)

/-- The log record of a fault in a lenient call. -/
def callRecord (expression : Expression) (heap : Heap) (event : Value) (fault : Fault) :
    LogRecord :=
  let shownEvent := (heap.shown event).toOption.getD ""
  { level := .error
    message := "Problem running " ++ expression.name ++ " with event " ++ shownEvent ++
      ":\n" ++ expression.text
    failureClass := if expression.config.logTracebacks then some fault.className else none }

/-- Call an expression; its failure is logged and `nil` is the result. -/
def callLeniently (expression : Expression) (arguments : Arguments) :
    StateM Heap (Value × List LogRecord) := do
  match ← run expression arguments with
  | .ok value => return (value, [])
  | .error fault =>
      return (.nil, [expression.callRecord (← get) arguments.event fault])

/-- The description that an expression has published to its own store. -/
def description (expression : Expression) (heap : Heap) : Value :=
  (Entries.find? Value.sameKey Device.descriptionKey (heap.entries expression.locals)).getD
    .nil

end Expression

end CueScript
