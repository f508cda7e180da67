import CueScript.Builtin.Call
import CueScript.Builtin.Member
import CueScript.Expansion
import CueScript.SpecialForm

/-!
# Evaluation

`step` does one piece of work: to evaluate a form in a scope, to read a member, to run
the body of a closure or to call a function value.  For the pieces inside it, it asks a
worker.  `solve` ties the knot: its worker is `solve` itself with a smaller budget of
frames.  So the budget bounds how deeply pieces of work nest, and nothing else.

A form can be part of a list that loses items while the form is evaluated.  A form is
brought up to date when its evaluation begins, and again where the parts that follow
a test, a head or bindings are taken from it.

Evaluation counts how deeply it is nested and stops at the limit of the evaluator.
A closure that is called by a built-in function goes on counting from the depth of
the innermost call its evaluator has made of a function that is not a closure.
-/

namespace CueScript

/-- A piece of work. -/
inductive Task where
  /-- Evaluate a form in a scope, at some depth. -/
  | evaluate (evaluator scope : Nat) (form : Value) (depth : Int)
  /-- Read a member of a value, which it has to have. -/
  | read (value : Value) (name : String)
  /-- Run the body of a closure, one level below a depth. -/
  | enter (closure : Value) (args : List Value) (depth : Int)
  /-- Call a function value the way built-in functions do. -/
  | call (function : Value) (args : List Value)

/-- What does a piece of work. -/
abbrev Worker := Task → Action Value

/-- The place where a form is evaluated: the evaluator, the scope and the depth. -/
structure Site where
  evaluator : Nat
  scope : Nat
  depth : Int

namespace Site

/-- One level deeper. -/
def inner (site : Site) : Site := { site with depth := site.depth + 1 }

/-- The same depth in another scope. -/
def within (site : Site) (scope : Nat) : Site := { site with scope := scope }

end Site

namespace Eval

variable (worker : Worker)

/-- Evaluate a form. -/
def form (site : Site) (form : Value) : Action Value :=
  worker (.evaluate site.evaluator site.scope form site.depth)

/-- Evaluate forms and list their values. -/
def items (site : Site) : List Value → Action (List Value)
  | [] => return []
  | item :: rest => do
      let value ← form worker site item
      let values ← items site rest
      return value :: values

/-- Evaluate the forms of a body; the last value is the result. -/
def bodyFrom (site : Site) : Value → List Value → Action Value
  | result, [] => return result
  | _, item :: rest => do
      let value ← form worker site item
      bodyFrom site value rest

/-- Evaluate a body; an empty one gives `nil`. -/
def body (site : Site) (forms : List Value) : Action Value :=
  bodyFrom worker site .nil forms

/-! ## Functions -/

/-- The rest parameter with the list of the arguments that are left for it. -/
def restVar (params : List String) (rest : Option String) (args : List Value) :
    Action (Option (String × Value)) := do
  match rest with
  | none => return none
  | some name => return some (name, ← Action.newList (args.drop params.length))

/-- The variables of a closure's scope: the parameters, the rest parameter and the
closure's own name, if it has one. -/
def callVars (closure : Value) (name : String) (params : List String)
    (rest : Option (String × Value)) (args : List Value) : ValueEntries :=
  let bound := Entries.putAll Value.sameKey ((params.map Value.str).zip args) []
  let withRest :=
    match rest with
    | none => bound
    | some (restName, left) => Entries.put Value.sameKey (.str restName) left bound
  if name = SpecialForm.unnamed then
    withRest
  else
    Entries.put Value.sameKey (.str name) closure withRest

/-- Whether a closure takes a number of arguments. -/
def accepts (params : List String) (rest : Option String) (count : Nat) : Bool :=
  params.length ≤ count && (rest.isSome || count == params.length)

/-- The number of arguments that a closure expects, as error texts show it. -/
def expectedText (params : List String) (rest : Option String) : String :=
  match rest with
  | some name => if name.isEmpty then toString params.length else s!"{params.length}+"
  | none => toString params.length

/-- Run the body of a closure, one level below a depth. -/
def invoke (closure : Value) (args : List Value) (depth : Int) : Action Value := do
  match closure with
  | .closure _ name params rest forms scope evaluator =>
      if accepts params rest args.length then
        let vars := callVars closure name params (← restVar params rest args) args
        let inner ← Action.childScope scope vars
        body worker ⟨evaluator, inner, depth + 1⟩ forms
      else
        throw (.arity name (expectedText params rest) args.length)
  | _ => Action.fail .wrongType

/-- A depth that is given as a value.  A number that is not whole counts as the next
whole one, since limits are whole. -/
def level (depth : Value) : Action Int :=
  match depth.toNumeric? with
  | some (.int level) => return level
  | some (.float number) =>
      match number.truncate? with
      | some whole =>
          let isAbove := (Numeric.int whole).compare? (.float number) == some .lt
          return if isAbove then whole + 1 else whole
      | none => Action.fail .wrongType
  | none => Action.fail .wrongType

/-- Call a function that is no closure, keeping the depth of the call. -/
def callHost (site : Site) (function : Value) (args : List Value) : Action Value :=
  Action.atHostDepth site.evaluator site.depth (worker (.call function args))

/-- What stands at the head of a call, as error texts show it. -/
def headText (head function : Value) : Action String :=
  match head with
  | .nil => Action.shown function
  | _ => Action.source head

/-- Apply the value of a head to arguments. -/
def apply (site : Site) (head function : Value) (args : List Value) : Action Value := do
  match ← Action.current function with
  | .closure .. => worker (.enter function args site.depth)
  | .map entries _ => Member.callOnMap entries "get" args
  | _ =>
      if Access.isCallable function then
        callHost worker site function args
      else
        throw (.notFunction (← headText head function) (← Action.shown function))

/-! ## Forms -/

/-- The value of a symbol: keywords and constants stand for themselves. -/
def symbol (scope : Nat) (name : String) : Action Value :=
  match name.toList with
  | ':' :: c :: rest => return .keyword (String.ofList (c :: rest))
  | _ =>
      match name with
      | "nil" => return .nil
      | "true" => return .bool true
      | "false" => return .bool false
      | _ => Action.lookup scope (.str name)

/-- Evaluate forms up to the first with a false value. -/
def allTrue (site : Site) : Value → List Value → Action Value
  | result, [] => return result
  | _, item :: rest => do
      let value ← form worker site item
      if value.isTrue then allTrue site value rest else return value

/-- Evaluate forms up to the first with a true value. -/
def anyTrue (site : Site) : Value → List Value → Action Value
  | result, [] => return result
  | _, item :: rest => do
      let value ← form worker site item
      if value.isTrue then return value else anyTrue site value rest

/-- Evaluate bindings in a scope, each seeing those before it. -/
def bindAll (site : Site) : List (String × Value) → Action Unit
  | [] => return ()
  | (name, item) :: rest => do
      let value ← form worker site item
      Action.define site.scope (.str name) value
      bindAll site rest

/-- Evaluate the form of the first clause with a true test. -/
def firstClause (site : Site) : List (Value × Value) → Action Value
  | [] => return .nil
  | (test, item) :: rest => do
      let value ← form worker site test
      if value.isTrue then form worker site item else firstClause site rest

/-- Evaluate the branch that a test chooses. -/
def branch (site : Site) (holds : Bool) (branches : List Value) : Action Value :=
  match holds, branches with
  | true, yes :: _ => form worker site yes
  | true, [] => Action.fail .lostPart
  | false, [_, no] => form worker site no
  | false, _ => return .nil

/-- Evaluate the body of a special form: what it has left after its first two parts,
where the list has the given number. -/
def bodyOf (site : Site) (birth : Nat) (forms : List Value) : Action Value := do
  body worker site (← Action.upcoming birth 2 forms)

/-- Evaluate a special form, a list with the given number; the site is that of its
parts. -/
def special (site : Site) (birth : Nat) : SpecialForm → Action Value
  | .quote item => return item
  | .ifThen test yes no => do
      let value ← form worker site test
      let branches ← Action.upcoming birth 2 (yes :: no.toList)
      branch worker site value.isTrue branches
  | .when test forms => do
      let value ← form worker site test
      if value.isTrue then bodyOf worker site birth forms else return .nil
  | .whenNot test forms => do
      let value ← form worker site test
      if value.isTrue then return .nil else bodyOf worker site birth forms
  | .and forms => allTrue worker site (.bool true) forms
  | .or forms => anyTrue worker site .nil forms
  | .sequence forms => body worker site forms
  | .letIn bindings forms => do
      let inner := site.within (← Action.childScope site.scope [])
      bindAll worker inner bindings
      bodyOf worker inner birth forms
  | .whenLet name test forms => do
      let value ← form worker site test
      if value.isTrue then
        let inner := site.within (← Action.childScope site.scope [(.str name, value)])
        bodyOf worker inner birth forms
      else
        return .nil
  | .ifLet name test yes no => do
      let value ← form worker site test
      let branches ← Action.upcoming birth 2 (yes :: no.toList)
      if value.isTrue then
        let inner := site.within (← Action.childScope site.scope [(.str name, value)])
        branch worker inner true branches
      else
        branch worker site false branches
  | .cond clauses => firstClause worker site clauses
  | .function name params rest forms => do
      return .closure (← Action.newId) name params rest forms site.scope site.evaluator

/-- Use a member of a value: the parts of the form after its head are the value and
the arguments. -/
def useMember (site : Site) (birth : Nat) (name : String) (parts : List Value) :
    Action Value := do
  match parts with
  | [] => throw (.arity ("." ++ name) "1+" 0)
  | target :: argForms =>
      let value ← form worker site target
      let found ← worker (.read value (Event.memberName name))
      let args ← items worker site (← Action.upcoming birth 2 argForms)
      if Access.isCallable found then
        callHost worker site found args
      else if args.isEmpty then
        return found
      else
        throw (.arity ("." ++ name) "0" args.length)

/-- Call the value of a head with the values of the arguments. -/
def combination (site : Site) (birth : Nat) (head : Value) (argForms : List Value) :
    Action Value := do
  let function ← form worker site head
  let args ← items worker site (← Action.upcoming birth 1 argForms)
  apply worker site head function args

/-- Evaluate a list whose head is a symbol; the site is that of its parts. -/
def symbolCombination (site : Site) (birth : Nat) (name : String)
    (argForms : List Value) : Action Value := do
  let whole := Value.symbol name :: argForms
  match SpecialForm.ofForm? name whole with
  | some (.ok parts) => special worker site birth parts
  | some (.error fault) => do
      let raised ← Action.reading fun heap => fault.toFault heap whole
      throw raised
  | none =>
      match expand? name argForms with
      | some expansion => form worker site expansion
      | none =>
          match name.toList with
          | '.' :: c :: rest =>
              useMember worker site birth (String.ofList (c :: rest)) argForms
          | _ => combination worker site birth (.symbol name) argForms

/-- Evaluate a form at a site. -/
def formAt (site : Site) : Value → Action Value
  | .symbol name => symbol site.scope name
  | .vector elements _ => do Action.newList (← items worker site.inner elements)
  | .list [] _ => Action.newList []
  | .list (.symbol name :: argForms) birth =>
      symbolCombination worker site.inner birth name argForms
  | .list (head :: argForms) birth => combination worker site.inner birth head argForms
  | .quoted item => return item
  | literal => return literal

/-! ## Evaluators as values -/

/-- Evaluate the forms in a collection one after the other. -/
def evaluateAll (evaluator scope : Nat) (forms depth : Value) : Action Value := do
  let step (_ item : Value) : Action (Access.Progress Value) := do
    return .more (← worker (.evaluate evaluator scope item (← level depth)))
  Access.overItems forms (← Access.items forms) step .nil

/-- Apply a value to the arguments in a collection.  What is no function is told before
the arguments and the depth are looked at. -/
def applyGiven (evaluator : Nat) (function given head depth : Value) : Action Value := do
  let outermost : Site := ⟨evaluator, 0, 0⟩
  match function with
  | .map .. => apply worker outermost head function (← Access.items given)
  | _ =>
      if Access.isCallable function then
        let args ← Access.items given
        apply worker { outermost with depth := ← level depth } head function args
      else
        apply worker outermost head function []

/-- Perform an operation of an evaluator: to evaluate one form or several, to apply a
function, or to do only that part of evaluation which its name tells. -/
def callEvaluator (evaluator : Nat) (operation : String) (args : List Value) :
    Action Value := do
  match operation, args with
  | "host_depth", [] => return .int ((← get).hostDepth evaluator)
  | "evaluate", [item, scope] =>
      worker (.evaluate evaluator (← Action.scopeOf scope) item 0)
  | "evaluate", [item, scope, depth] =>
      worker (.evaluate evaluator (← Action.scopeOf scope) item (← level depth))
  | "evaluate_body", [forms, scope, depth] =>
      evaluateAll worker evaluator (← Action.scopeOf scope) forms depth
  | "apply", function :: given :: rest =>
      if 2 < rest.length then
        Action.fail .wrongType
      else
        applyGiven worker evaluator function given (rest.getD 0 .nil) (rest.getD 1 (.int 0))
  | "_symbol", [name, scope] =>
      match name.toText? with
      | some text => symbol (← Action.scopeOf scope) text
      | none => Action.fail .wrongType
  | "_combination", [.list items birth, scope, depth] => do
      formAt worker ⟨evaluator, ← Action.scopeOf scope, ← level depth⟩ (.list items birth)
  | "_member", [name, .list items birth, scope, depth] =>
      match name.toText? with
      | some text => do
          let site : Site := ⟨evaluator, ← Action.scopeOf scope, ← level depth⟩
          useMember worker site.inner birth text items.tail
      | none => Action.fail .wrongType
  | "_call_host", [function, given, depth] => do
      let args ← Access.items given
      callHost worker ⟨evaluator, 0, ← level depth⟩ function args
  | _, _ => Action.fail .wrongType

/-! ## Pieces of work -/

/-- Call a function value the way built-in functions do. -/
def call (function : Value) (args : List Value) : Action Value := do
  let caller : Caller := fun inner innerArgs => worker (.call inner innerArgs)
  let present ← Action.currentItems args
  match function with
  | .closure _ _ _ _ _ _ evaluator =>
      worker (.enter function args ((← get).hostDepth evaluator))
  | .builtin builtin => Call.perform caller builtin present
  | .instanceTest _ lineage =>
      match present with
      | [kind, value] => return .bool (← Device.isInstance lineage kind value)
      | _ => Action.fail .wrongType
  | .keyword _ => Access.callKeyword caller function present
  | .method _ result =>
      match present with
      | [] => return result
      | _ => Action.fail .wrongType
  | .member (.closure id name params rest forms scope evaluator) _ =>
      match present with
      | [collection, depth] =>
          let inner ← Access.items collection
          let start ← level depth
          worker (.enter (.closure id name params rest forms scope evaluator) inner start)
      | _ => Action.fail .wrongType
  | .member (.evaluator id) operation => callEvaluator worker id operation present
  | .member receiver operation =>
      Member.call caller (← Action.current receiver) operation present
  | _ => Action.fail .wrongType

/-- Read a member of a value, which it has to have. -/
def readMember (value : Value) (name : String) : Action Value := do
  match ← Access.member? value name with
  | some found => return found
  | none => throw (.noMember name value.className)

/-- Do one piece of work. -/
def step : Task → Action Value
  | .evaluate evaluator scope item depth => do
      let limit := (← get).maxDepth evaluator
      if limit < depth then
        throw (.depthExceeded limit)
      else
        formAt worker ⟨evaluator, scope, depth⟩ (← Action.current item)
  | .read value name => readMember value name
  | .enter closure args depth => invoke worker closure args depth
  | .call function args => call worker function args

/-- Do a piece of work with at most so many pieces nested inside one another. -/
def solve : (frames : Nat) → Worker
  | 0 => fun _ => Action.fail .stackExhausted
  | frames + 1 => step (solve frames)

/-- How many pieces of work may nest; no limit of depth in use comes near it. -/
def frameLimit : Nat := 100000

/-- Do a piece of work. -/
def perform (task : Task) : Action Value := solve frameLimit task

/-- Evaluate the forms of a body one after the other. -/
def performBody (site : Site) (forms : List Value) : Action Value :=
  body perform site forms

end Eval

end CueScript
