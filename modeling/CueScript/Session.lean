import CueScript.Expression

/-!
# Sessions

A session keeps compiled expressions under names of their own, the store that they
share, and further stores that calls may be given in place of an expression's own.
`Session.perform` carries out one step and answers it.
-/

namespace CueScript

/-- The shared store, the expressions by name and the further stores by name. -/
structure Session where
  globals : Nat
  expressions : Entries String Expression
  extras : Entries String Nat

/-- What a session can be asked to do. -/
inductive SessionStep where
  /-- Compile an expression; one that compiles replaces an earlier one. -/
  | compile (id : String) (source : ExpressionSource)
  /-- Call an expression with an event, with named stores in place of its own. -/
  | call (id : String) (event : Value) (locals globals : Option String) (strict : Bool)
  /-- Set a key of the shared store. -/
  | set (key value : Value)

/-- What a call of an expression gives. -/
structure CallAnswer where
  result : Except Report Value
  logs : List LogRecord
  description : Value
  locals : ValueEntries

/-- The answer to a step. -/
inductive SessionAnswer where
  | compiled (compilation : Expression.Compilation)
  | called (answer : CallAnswer)
  /-- No expression has this name. -/
  | unknown
  | stored (outcome : Except Fault Unit)

namespace Session

/-- The name of the store that expressions share. -/
def globalsName : String := "globals"

/-- Begin a session with a shared store of some entries. -/
def start (entries : ValueEntries) : StateM Heap Session := do
  let globals ← modifyGet fun heap => heap.openStore globalsName entries
  return ⟨globals, [], []⟩

/-- The further store with a name; it is opened when it is first asked for. -/
def extraStore (session : Session) (name : String) : StateM Heap (Nat × Session) := do
  match Entries.find? (· == ·) name session.extras with
  | some id => return (id, session)
  | none => do
      let id ← modifyGet fun heap => heap.openStore name []
      let extras := Entries.put (· == ·) name id session.extras
      return (id, { session with extras := extras })

/-- The further store with a name, if a name is given. -/
def optionalStore (session : Session) (name : Option String) :
    StateM Heap (Option Nat × Session) := do
  match name with
  | none => return (none, session)
  | some each => do
      let (id, next) ← session.extraStore each
      return (some id, next)

/-- Call an expression. -/
def callAnswer (expression : Expression) (arguments : Expression.Arguments)
    (strict : Bool) : StateM Heap CallAnswer := do
  let (result, logs) ←
    if strict then do
      let result ← expression.callStrictly arguments
      pure (result, [])
    else do
      let (value, logs) ← expression.callLeniently arguments
      pure (.ok value, logs)
  let heap ← get
  return ⟨result, logs, expression.description heap, heap.entries expression.locals⟩

/-- Carry out a step. -/
def perform (session : Session) (step : SessionStep) :
    StateM Heap (SessionAnswer × Session) := do
  match step with
  | .compile id source => do
      let compilation ← Expression.compile source session.globals
      match compilation.outcome with
      | .error _ => return (.compiled compilation, session)
      | .ok expression =>
          let expressions := Entries.put (· == ·) id expression session.expressions
          return (.compiled compilation, { session with expressions := expressions })
  | .call id event locals globals strict =>
      match Entries.find? (· == ·) id session.expressions with
      | none => return (.unknown, session)
      | some expression => do
          let (localsStore, session) ← session.optionalStore locals
          let (globalsStore, session) ← session.optionalStore globals
          let answer ← callAnswer expression ⟨event, localsStore, globalsStore⟩ strict
          return (.called answer, session)
  | .set key value => do
      let outcome ← Expression.observed (Store.set session.globals key value)
      return (.stored (outcome.map fun _ => ()), session)

end Session

end CueScript
