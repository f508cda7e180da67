import CueScript.Fault
import CueScript.Heap

/-!
# Special forms

A list whose head is one of a few symbols is a special form.  `SpecialForm.ofForm?`
splits such a list into its parts, or says what is wrong with its shape.  Nothing
is evaluated here: the same function checks forms before they run and takes them
apart when they do.
-/

namespace CueScript

/-- What is wrong with the parts of a special form. -/
inductive Malformation where
  | missingBindings
  | unpairedBindings
  | unbindable (name : Value)
  | manyBindings
  | notIfLet
  | unpairedClauses
  | missingParameters
  | badParameter (parameter : Value)
  | badRest

/-- Why a list is not the special form that its head announces. -/
inductive ShapeFault where
  /-- The number of parts is wrong. -/
  | arity (name expected : String) (got : Nat)
  /-- Some part is wrong. -/
  | malformed (why : Malformation)

/-- A special form in its parts. -/
inductive SpecialForm where
  | quote (form : Value)
  | ifThen (test yes : Value) (no : Option Value)
  | when (test : Value) (body : List Value)
  | whenNot (test : Value) (body : List Value)
  | and (forms : List Value)
  | or (forms : List Value)
  | sequence (body : List Value)
  | letIn (bindings : List (String × Value)) (body : List Value)
  | whenLet (name : String) (test : Value) (body : List Value)
  | ifLet (name : String) (test yes : Value) (no : Option Value)
  | cond (clauses : List (Value × Value))
  | function (name : String) (params : List String) (rest : Option String)
      (body : List Value)

namespace Malformation

/-- The wording of a malformation. -/
def text (heap : Heap) : Malformation → Except Failure String
  | missingBindings => pure "missing binding vector"
  | unpairedBindings => pure "bindings must be a vector of name/value pairs"
  | unbindable name => do
      let spelled ← heap.source name
      pure ("cannot bind " ++ spelled)
  | manyBindings => pure "exactly one binding pair required"
  | notIfLet => pure "expected (if-let [name test] then else?)"
  | unpairedClauses => pure "requires an even number of forms"
  | missingParameters => pure "missing parameter vector"
  | badParameter parameter => do
      let spelled ← heap.source parameter
      pure ("bad parameter " ++ spelled)
  | badRest => pure "& must be followed by exactly one name"

end Malformation

namespace ShapeFault

/-- The fault that a list of the wrong shape causes. -/
def toFault (heap : Heap) (form : List Value) : ShapeFault → Except Failure Fault
  | arity name expected got => pure (.arity name expected got)
  | malformed why => do
      let head ← heap.source (form.headD .nil)
      let reason ← why.text heap
      let whole ← heap.source (.list form 0)
      pure (.malformed ("Malformed " ++ head ++ ": " ++ reason ++ " in " ++ whole))

end ShapeFault

namespace SpecialForm

/-! ## Parts of special forms -/

/-- Names with the forms they are bound to. -/
def bindingPairs : List Value → Except ShapeFault (List (String × Value))
  | .symbol name :: form :: rest => do
      let pairs ← bindingPairs rest
      pure ((name, form) :: pairs)
  | name :: _ :: _ => throw (.malformed (.unbindable name))
  | _ => pure []

/-- The bindings of a form: a vector or list of pairs in the second place. -/
def bindings (form : List Value) : Except ShapeFault (List (String × Value)) :=
  match form with
  | _ :: vector :: _ =>
      match vector.sequence? with
      | some items =>
          if items.length % 2 = 0 then
            bindingPairs items
          else
            throw (.malformed .unpairedBindings)
      | none => throw (.malformed .unpairedBindings)
  | _ => throw (.malformed .missingBindings)

/-- Tests with the forms they guard. -/
def clausePairs : List Value → List (Value × Value)
  | test :: form :: rest => (test, form) :: clausePairs rest
  | _ => []

/-- Parameter names and the name of the rest parameter. -/
def parameters : List Value → Except ShapeFault (List String × Option String)
  | [] => pure ([], none)
  | .symbol name :: others =>
      if name = "&" then
        match others with
        | [.symbol rest] => pure ([], some rest)
        | _ => throw (.malformed .badRest)
      else do
        let (names, rest) ← parameters others
        pure (name :: names, rest)
  | other :: _ => throw (.malformed (.badParameter other))

/-- The parts of a function after its name. -/
def functionOf (name : String) : List Value → Except ShapeFault SpecialForm
  | [] => throw (.malformed .missingParameters)
  | vector :: body =>
      match vector.sequence? with
      | none => throw (.malformed .missingParameters)
      | some items => do
          let (params, rest) ← parameters items
          pure (.function name params rest body)

/-- The name that a function without one of its own has. -/
def unnamed : String := "fn"

/-! ## Shapes by head -/

/-- The parts of a quotation. -/
def asQuote : List Value → Except ShapeFault SpecialForm
  | [_, form] => pure (.quote form)
  | form => throw (.arity "quote" "1" (form.length - 1))

/-- The parts of a choice by a test. -/
def asIf : List Value → Except ShapeFault SpecialForm
  | [_, test, yes] => pure (.ifThen test yes none)
  | [_, test, yes, no] => pure (.ifThen test yes (some no))
  | form => throw (.arity "if" "2 or 3" (form.length - 1))

/-- The parts of a body under a test. -/
def asGuarded (name : String) (make : Value → List Value → SpecialForm) :
    List Value → Except ShapeFault SpecialForm
  | _ :: test :: body => pure (make test body)
  | _ => throw (.arity name "1+" 0)

/-- The parts of a body with bindings. -/
def asLet (form : List Value) : Except ShapeFault SpecialForm := do
  let pairs ← bindings form
  pure (.letIn pairs (form.drop 2))

/-- The parts of a body under a test whose value is bound. -/
def asWhenLet (form : List Value) : Except ShapeFault SpecialForm := do
  match ← bindings form with
  | [(name, test)] => pure (.whenLet name test (form.drop 2))
  | _ => throw (.malformed .manyBindings)

/-- The parts of a choice by a test whose value is bound. -/
def asIfLet (form : List Value) : Except ShapeFault SpecialForm := do
  match ← bindings form, form with
  | [(name, test)], [_, _, yes] => pure (.ifLet name test yes none)
  | [(name, test)], [_, _, yes, no] => pure (.ifLet name test yes (some no))
  | _, _ => throw (.malformed .notIfLet)

/-- The clauses of a choice by several tests. -/
def asCond (form : List Value) : Except ShapeFault SpecialForm :=
  if form.tail.length % 2 = 0 then
    pure (.cond (clausePairs form.tail))
  else
    throw (.malformed .unpairedClauses)

/-- The parts of a function. -/
def asFunction (form : List Value) : Except ShapeFault SpecialForm :=
  match form.tail with
  | .symbol name :: parts => functionOf name parts
  | parts => functionOf unnamed parts

/-- A list in its parts as the special form with the given head; nothing if no
special form has this head. -/
def ofForm? (head : String) (form : List Value) : Option (Except ShapeFault SpecialForm) :=
  match head with
  | "quote" => some (asQuote form)
  | "if" => some (asIf form)
  | "when" => some (asGuarded "when" .when form)
  | "when-not" => some (asGuarded "when-not" .whenNot form)
  | "and" => some (pure (.and form.tail))
  | "or" => some (pure (.or form.tail))
  | "do" => some (pure (.sequence form.tail))
  | "let" => some (asLet form)
  | "when-let" => some (asWhenLet form)
  | "if-let" => some (asIfLet form)
  | "cond" => some (asCond form)
  | "fn" => some (asFunction form)
  | _ => none

end SpecialForm

end CueScript
