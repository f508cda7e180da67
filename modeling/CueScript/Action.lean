import CueScript.Fault
import CueScript.Heap

/-!
# Actions

An action reads and changes the heap and gives a value or a fault.  A fault does
not undo what was changed before it.
-/

namespace CueScript

/-- A computation on the heap that may fail. -/
abbrev Action (α : Type) := ExceptT Fault (StateM Heap) α

namespace Action

/-- Run an action: its outcome and the heap after it. -/
def perform {α : Type} (action : Action α) (heap : Heap) : Except Fault α × Heap :=
  (action.run).run heap

/-- Fail with a primitive failure. -/
def fail {α : Type} (failure : Failure) : Action α := throw (.failed failure)

/-- The value of a primitive operation, or its failure as a fault. -/
def ofExcept {α : Type} : Except Failure α → Action α
  | .ok value => pure value
  | .error failure => fail failure

/-- The value of a primitive operation that depends on the heap. -/
def reading {α : Type} (operation : Heap → Except Failure α) : Action α := do
  ofExcept (operation (← get))

/-- Change the heap and give a value. -/
def change {α : Type} (operation : Heap → α × Heap) : Action α :=
  modifyGet operation

/-- Make the outcome of an action its value, so that what follows runs in any case. -/
def observe {α : Type} (action : Action α) : Action (Except Fault α) :=
  ExceptT.mk do
    let outcome ← action.run
    pure (.ok outcome)

/-- A number that has not been used before. -/
def newId : Action Nat :=
  change fun heap => (heap.births, { heap with births := heap.births + 1 })

/-- A double as a value; each result without a number is told apart from the
others. -/
def newFloat (number : Binary64) : Action Value :=
  match number with
  | .nan => return .float .nan (← newId)
  | _ => pure (.float number 0)

/-- A list of its own with some items. -/
def newList (items : List Value) : Action Value := return .list items (← newId)

/-- A map of its own with some entries. -/
def newMap (entries : ValueEntries) : Action Value := return .map entries (← newId)

/-- A value in which every list and every map has what it holds now. -/
def current (value : Value) : Action Value := return (← get).current value

/-- The same for several values. -/
def currentItems (items : List Value) : Action (List Value) :=
  return (← get).currentItems items

/-- What is still to come of the items of a list when some are done.  A list that has
lost items goes on at the same position. -/
def upcoming (birth done : Nat) (rest : List Value) : Action (List Value) := do
  match (← get).left? birth with
  | some left => return left.drop done
  | none => return rest

/-- Whether two values are equal as they are now. -/
def equal (a b : Value) : Action Bool := do
  let left ← current a
  let right ← current b
  return left.equal right

/-- The text that shows a value. -/
def shown (value : Value) : Action String := reading (·.shown value)

/-- The text of a tree as the reader accepts it. -/
def source (value : Value) : Action String := reading (·.source value)

/-- The text of a value for people. -/
def display (value : Value) : Action String := reading (·.display value)

/-- Variables in a table of their own. -/
def newVariables (vars : ValueEntries) : Action Variables := do
  return .table (← change fun heap => heap.openTable vars)

/-- Open a scope inside another. -/
def scopeInside (parent : Nat) (vars : Variables) : Action Nat := do
  if (← get).canOpenInside parent then
    change fun heap => heap.openScope vars (some parent)
  else
    fail .noAttribute

/-- The scope that a value stands for. -/
def scopeOf (value : Value) : Action Nat :=
  match value with
  | .scope id => return id
  | given => change fun heap => heap.openScope (.absent given) none

/-- Open a scope inside another, with variables in a table of their own. -/
def childScope (parent : Nat) (vars : ValueEntries) : Action Nat := do
  scopeInside parent (← newVariables vars)

/-- Set a variable of a scope. -/
def define (scope : Nat) (key value : Value) : Action Unit := do
  let (table, revised) ← reading fun heap => heap.defined scope key value
  modify fun heap => heap.setTable table revised

/-- The value of a variable. -/
def lookup (scope : Nat) (key : Value) : Action Value := do
  match ← reading fun heap => heap.lookup? scope key with
  | some value => pure value
  | none => throw (.unbound (← display key))

/-- Do something while an evaluator is inside a call at some depth; the depth it was
at before comes back in any case. -/
def atHostDepth {α : Type} (evaluator : Nat) (depth : Int) (action : Action α) :
    Action α := do
  let before := (← get).hostDepth evaluator
  modify fun heap => heap.setHostDepth evaluator depth
  let outcome ← observe action
  modify fun heap => heap.setHostDepth evaluator before
  match outcome with
  | .ok value => pure value
  | .error fault => throw fault

end Action

end CueScript
