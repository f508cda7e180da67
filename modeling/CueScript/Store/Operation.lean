import CueScript.Builtin.Access

/-!
# Operations on stores

Each operation works on one key of one store.  `update` calls a function between
reading the old value and writing the new one, so that the function sees the old
value in the store and whatever it writes elsewhere stays.
-/

namespace CueScript

namespace Store

/-- The entries of a store. -/
def contents (id : Nat) : Action ValueEntries := return (← MonadState.get).entries id

/-- Change the entries of a store by an operation that may fail. -/
def revise (id : Nat) (operation : ValueEntries → Except Failure ValueEntries) :
    Action Unit := do
  let revised ← Action.ofExcept (operation (← contents id))
  modify fun heap => heap.setEntries id revised

/-- The value under a key, if there is one. -/
def find? (id : Nat) (key : Value) : Action (Option Value) := do
  Action.ofExcept (ValueEntries.get? (← contents id) key)

/-- The value under a key or a default. -/
def get (id : Nat) (key default : Value) : Action Value :=
  return (← find? id key).getD default

/-- Set the value under a key. -/
def set (id : Nat) (key value : Value) : Action Value := do
  revise id fun stored => ValueEntries.put stored key value
  return value

/-- Remove a key; its previous value is the result. -/
def remove (id : Nat) (key : Value) : Action Value := do
  let previous ← Action.ofExcept (ValueEntries.taken? (← contents id) key)
  revise id fun stored => ValueEntries.erase stored key
  return previous.getD .nil

/-- Replace the value under a key by the result of a function on it. -/
def update (call : Caller) (id : Nat) (key function : Value) (args : List Value) :
    Action Value := do
  let old ← get id key .nil
  let value ← call function (old :: args)
  set id key value

/-- Set the value under a key if the present one equals what is expected. -/
def compareAndSet (id : Nat) (key expected value : Value) : Action Bool := do
  let present ← get id key .nil
  if present.equal expected then do
    let _ ← set id key value
    return true
  else
    return false

/-- Follow a path of keys through nested maps, beginning at a store. -/
def getIn (call : Caller) (id : Nat) (path default : Value) : Action Value := do
  if ← Access.isPresent path then
    let start ← Access.itemAt path (.int 0)
    let found ← find? id start
    let rest ← Access.itemsAfterFirst path
    match ← Access.followPath call (Access.answered 1 found) rest with
    | none => return default
    | some .nil => return default
    | some value => return value
  else
    return default

/-- Remove all entries. -/
def clear (id : Nat) : Action Unit := modify fun heap => heap.setEntries id []

/-- Whether there is a value under a key. -/
def contains (id : Nat) (key : Value) : Action Bool := do
  Action.ofExcept (ValueEntries.has (← contents id) key)

/-- Call an operation of a store by its name. -/
def perform (call : Caller) (id : Nat) (operation : String) (args : List Value) :
    Action Value :=
  match operation, args with
  | "get", [key] => get id key .nil
  | "get", [key, default] => get id key default
  | "get_in", [path] => getIn call id path .nil
  | "get_in", [path, default] => getIn call id path default
  | "set", [key, value] => set id key value
  | "remove", [key] => remove id key
  | "update", key :: function :: rest => update call id key function rest
  | "compare_and_set", [key, expected, value] =>
      return .bool (← compareAndSet id key expected value)
  | "snapshot", [] => do Action.newMap (← contents id)
  | "clear", [] => do
      clear id
      return .nil
  | _, _ => Action.fail .wrongType

end Store

end CueScript
