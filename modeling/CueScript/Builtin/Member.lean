import CueScript.Event.Record
import CueScript.Store.Operation

/-!
# Operations of values

A member that is an operation (`Value.member`) can be called.  `Member.call`
performs the operation; those of closures and evaluators are part of evaluation and are
not among them.
-/

namespace CueScript

namespace Member

/-- Perform an operation of a map. -/
def callOnMap (entries : ValueEntries) (operation : String) (args : List Value) :
    Action Value := do
  match operation, args with
  | "get", [key] => return (← Action.ofExcept (ValueEntries.get? entries key)).getD .nil
  | "get", [key, default] =>
      return (← Action.ofExcept (ValueEntries.get? entries key)).getD default
  | "keys", [] => Action.newList (Entries.keys entries)
  | "values", [] => Action.newList (Entries.values entries)
  | _, _ => Action.fail .wrongType

/-- Remove the first of the items that matches a value, if there is one. -/
def withoutFirst? (value : Value) : List Value → Option (List Value)
  | [] => none
  | item :: rest =>
      if item.agrees value then some rest else (withoutFirst? value rest).map (item :: ·)

/-- Perform an operation of a list: to lose the first item that matches a value. -/
def callOnList (items : List Value) (birth : Nat) (args : List Value) : Action Value := do
  match args with
  | [value] =>
      match withoutFirst? value items with
      | some left => do
          modify fun heap => heap.leave birth left
          return .nil
      | none => Action.fail .badValue
  | _ => Action.fail .wrongType

/-- Perform an operation of a scope. -/
def callOnScope (scope : Nat) (operation : String) (args : List Value) :
    Action Value := do
  match operation, args with
  | "lookup", [key] => Action.lookup scope key
  | "define", [key, value] => do
      Action.define scope key value
      return .nil
  | "child", [] => return .scope (← Action.childScope scope [])
  | "child", [.nil] => return .scope (← Action.childScope scope [])
  | "child", [holder] => do
      let vars ← Action.change fun heap => heap.variablesOf holder
      return .scope (← Action.scopeInside scope vars)
  | _, _ => Action.fail .wrongType

/-- Perform an operation of a value. -/
def call (caller : Caller) (receiver : Value) (operation : String) (args : List Value) :
    Action Value := do
  match receiver with
  | .store id => Store.perform caller id operation args
  | .map entries _ => callOnMap entries operation args
  | .list items birth => callOnList items birth args
  | .kind _ =>
      match operation, args with
      | "parse", [text] => return .kind (← Event.parseKind text)
      | "of", [value] => return (Event.kind? value).elim .nil .kind
      | _, _ => Action.fail .wrongType
  | .event .. =>
      match args with
      | [kind, data] => Event.ofMap kind data
      | _ => Action.fail .wrongType
  | .symbol name =>
      match args with
      | [] => return .str name
      | _ => Action.fail .wrongType
  | .scope scope => callOnScope scope operation args
  | .settings config =>
      match args with
      | [] => Action.newList (config.warnings.map .str)
      | _ => Action.fail .wrongType
  | _ => Action.fail .wrongType

end Member

end CueScript
