import CueScript.Value.Current
import CueScript.Value.Map
import CueScript.Value.Render

/-!
# What can change

Stores, scopes and evaluators change while expressions run.  They live in a
`Heap`, and values refer to them by number.  Numbers are given out in order and
never again, so two different things never share one.

The entries of a store and the variables of a scope are in tables.  A map can be a view
of a table: it has the entries that the table has, whatever happens to it.  A heap also
keeps which lists have lost items.  `Heap.current` brings a value up to date;
everything that looks into lists and maps does so on values that are up to date.

A scope lists the scopes around it from the inside out; a symbol is looked up in
them one after the other.
-/

namespace CueScript

/-- A named key/value store; its entries are those of a table. -/
structure Store where
  name : String
  table : Nat

/-- Where the variables of a scope are: in a table, or inside a value that was given in
place of a map.  There are none where a value was given in place of the scope itself:
nothing can be looked up in it, and no scope can be opened inside it. -/
inductive Variables where
  | table (id : Nat)
  | inside (holder : Value)
  | absent (given : Value)

/-- The variables of one scope, with the scopes around it from the inside out. -/
structure Scope where
  vars : Variables
  outer : List Nat

/-- An evaluator: its settings, which say how deep it may nest, and the depth of the
innermost call it has made of a function that is not a closure. -/
structure EvaluatorState where
  config : Config
  hostDepth : Int

/-- Everything that can change, and the next unused number.

* `views` tells of which table a map is a view, by the number of the map.
* `losses` tells which items a list has left, by the number of the list. -/
structure Heap where
  tables : Array ValueEntries
  views : Entries Nat Nat
  stores : Array Store
  scopes : Array Scope
  evaluators : Array EvaluatorState
  losses : Entries Nat (List Value)
  births : Nat

namespace Heap

/-- Nothing yet. -/
def empty : Heap := ⟨#[], [], #[], #[], #[], [], Value.firstBirth⟩

instance : Inhabited Heap := ⟨empty⟩

/-! ## Tables, views and lists that have lost items -/

/-- The entries of a table. -/
def table (heap : Heap) (id : Nat) : ValueEntries := heap.tables[id]?.getD []

/-- Replace the entries of a table. -/
def setTable (heap : Heap) (id : Nat) (entries : ValueEntries) : Heap :=
  { heap with tables := heap.tables.modify id fun _ => entries }

/-- Make a table. -/
def openTable (heap : Heap) (entries : ValueEntries) : Nat × Heap :=
  (heap.tables.size, { heap with tables := heap.tables.push entries })

/-- The table of which the map with a number is a view, if it is one. -/
def viewed? (heap : Heap) (birth : Nat) : Option Nat :=
  Entries.find? (· == ·) birth heap.views

/-- The map that is a view of a table; there is only one. -/
def view (heap : Heap) (table : Nat) : Value × Heap :=
  match List.find? (fun entry => entry.2 == table) heap.views with
  | some (birth, _) => (.map [] birth, heap)
  | none =>
      let birth := heap.births
      (.map [] birth, { heap with views := (birth, table) :: heap.views, births := birth + 1 })

/-- The items that the list with a number has left, if it has lost any. -/
def left? (heap : Heap) (birth : Nat) : Option (List Value) :=
  Entries.find? (· == ·) birth heap.losses

/-- Leave a list only some of its items.  A list without a number is not in use, and
nothing is kept of it. -/
def leave (heap : Heap) (birth : Nat) (left : List Value) : Heap :=
  if birth = 0 then
    heap
  else
    { heap with losses := Entries.put (· == ·) birth left heap.losses }

/-! ## Values as they are now -/

/-- What lists and maps hold now, inside of the views on a path.  A view inside itself
has no entries there: they are asked for once more when someone looks into it.  The
budget is the number of lists and maps with holdings of their own that can be inside
one another. -/
def holdings (heap : Heap) : (budget : Nat) → (path : List Nat) → Holdings
  | 0, _ => .unchanged
  | budget + 1, path =>
      { items := fun birth =>
          (heap.left? birth).map (Value.currentItems (holdings heap budget path))
        entries := fun birth =>
          (heap.viewed? birth).map fun id =>
            if birth ∈ path then
              []
            else
              Value.currentEntries (holdings heap budget (birth :: path)) (heap.table id) }

/-- What lists and maps hold now.  No view is twice on a path, and between two views
no list that has lost items is inside itself. -/
def present (heap : Heap) : Holdings :=
  heap.holdings ((heap.views.length + 1) * (heap.losses.length + 1)) []

/-- Whether all lists and maps hold what they were made with. -/
def isUnchanged (heap : Heap) : Bool := heap.views.isEmpty && heap.losses.isEmpty

/-- A value in which every list and every map has what it holds now. -/
def current (heap : Heap) (value : Value) : Value :=
  if heap.isUnchanged then value else value.current heap.present

/-- The same for several values. -/
def currentItems (heap : Heap) (items : List Value) : List Value :=
  if heap.isUnchanged then items else Value.currentItems heap.present items

/-! ## Stores -/

/-- The entries of a store, up to date. -/
def entries (heap : Heap) (id : Nat) : ValueEntries :=
  match heap.stores[id]? with
  | some store =>
      let stored := heap.table store.table
      if heap.isUnchanged then stored else Value.currentEntries heap.present stored
  | none => []

/-- The name of a store. -/
def storeName (heap : Heap) (id : Nat) : String :=
  match heap.stores[id]? with
  | some store => store.name
  | none => ""

/-- Replace the entries of a store. -/
def setEntries (heap : Heap) (id : Nat) (entries : ValueEntries) : Heap :=
  match heap.stores[id]? with
  | some store => heap.setTable store.table entries
  | none => heap

/-- Open a store. -/
def openStore (heap : Heap) (name : String) (entries : ValueEntries) : Nat × Heap :=
  let (table, heap) := heap.openTable entries
  (heap.stores.size, { heap with stores := heap.stores.push ⟨name, table⟩ })

/-! ## Scopes -/

/-- The value under a key among variables.  Of the values that are no maps only a store
can be asked for it. -/
def valueIn? (heap : Heap) (vars : Variables) (key : Value) :
    Except Failure (Option Value) :=
  match vars with
  | .table id => ValueEntries.get? (heap.table id) key
  | .inside (.store id) => ValueEntries.get? (heap.entries id) key
  | .inside _ => throw .noAttribute
  | .absent _ => throw .noAttribute

/-- The value under a key in the first of the scopes that has one. -/
def firstValueIn? (heap : Heap) (key : Value) : List Nat → Except Failure (Option Value)
  | [] => pure none
  | id :: rest =>
      match heap.scopes[id]? with
      | none => firstValueIn? heap key rest
      | some scope => do
          match ← heap.valueIn? scope.vars key with
          | some value => pure (some value)
          | none => firstValueIn? heap key rest

/-- The value under a key in a scope or the scopes around it. -/
def lookup? (heap : Heap) (scope : Nat) (key : Value) : Except Failure (Option Value) :=
  match heap.scopes[scope]? with
  | none => pure none
  | some inner => heap.firstValueIn? key (scope :: inner.outer)

/-- The table of a scope with a variable set; only tables can be set. -/
def defined (heap : Heap) (scope : Nat) (key value : Value) :
    Except Failure (Nat × ValueEntries) :=
  match heap.scopes[scope]? with
  | some ⟨.table id, _⟩ => do
      let revised ← ValueEntries.put (heap.table id) key value
      pure (id, revised)
  | _ => throw .wrongType

/-- The variables that a value stands for.  A map shares its entries with the scope
that gets them: it is a view of their table from then on. -/
def variablesOf (heap : Heap) (holder : Value) : Variables × Heap :=
  match holder with
  | .map entries birth =>
      match heap.viewed? birth with
      | some id => (.table id, heap)
      | none =>
          let (id, heap) := heap.openTable entries
          let views := if birth = 0 then heap.views else (birth, id) :: heap.views
          (.table id, { heap with views })
  | _ => (.inside holder, heap)

/-- What stands for a scope as a value. -/
def scopeValue (heap : Heap) (id : Nat) : Value :=
  match heap.scopes[id]? with
  | some ⟨.absent given, _⟩ => given
  | _ => .scope id

/-- Whether a scope can be opened inside another. -/
def canOpenInside (heap : Heap) (parent : Nat) : Bool :=
  match heap.scopes[parent]? with
  | some ⟨.absent _, _⟩ => false
  | _ => true

/-- Open a scope; without a parent it is outermost. -/
def openScope (heap : Heap) (vars : Variables) (parent : Option Nat) : Nat × Heap :=
  let outer :=
    match parent with
    | none => []
    | some id =>
        match heap.scopes[id]? with
        | some scope => id :: scope.outer
        | none => [id]
  (heap.scopes.size, { heap with scopes := heap.scopes.push ⟨vars, outer⟩ })

/-! ## Evaluators -/

/-- Make an evaluator. -/
def openEvaluator (heap : Heap) (config : Config) : Nat × Heap :=
  (heap.evaluators.size, { heap with evaluators := heap.evaluators.push ⟨config, 0⟩ })

/-- The depth of the innermost call an evaluator has made of a function that is not
a closure. -/
def hostDepth (heap : Heap) (evaluator : Nat) : Int :=
  match heap.evaluators[evaluator]? with
  | some state => state.hostDepth
  | none => 0

/-- The settings of an evaluator. -/
def config (heap : Heap) (evaluator : Nat) : Config :=
  match heap.evaluators[evaluator]? with
  | some state => state.config
  | none => {}

/-- How deep an evaluator may nest. -/
def maxDepth (heap : Heap) (evaluator : Nat) : Int := (heap.config evaluator).maxDepth

/-- Change the depth of the innermost call of a function that is not a closure. -/
def setHostDepth (heap : Heap) (evaluator : Nat) (depth : Int) : Heap :=
  let evaluators := heap.evaluators.modify evaluator fun state =>
    { state with hostDepth := depth }
  { heap with evaluators }

/-! ## Text of stores -/

/-- The text that shows a store inside of some enclosures.  A store right inside itself,
with no list or map in between, is never shown to the end.  The budget is the number of
stores that can be nested in one another. -/
def showStore (heap : Heap) : (budget : Nat) → List Enclosure → (id : Nat) →
    Except Failure String
  | 0, _, _ => throw .stackExhausted
  | budget + 1, path, id => do
      if .store id ∈ path.takeWhile Enclosure.isStore then
        throw .stackExhausted
      else
        let texts ← Value.shownEntries (showStore heap budget) (.store id :: path)
          (heap.entries id)
        let name := heap.storeName id
        let label := if name.isEmpty then "" else " " ++ name
        pure ("<SharedState" ++ label ++ " \x7b" ++ Value.joinTexts ", " texts ++ "\x7d>")

/-- How deeply stores are shown inside one another; no stores in use come near it. -/
def showLimit : Nat := 100000

/-- The text of any store of the heap. -/
def showAnyStore (heap : Heap) : List Enclosure → Nat → Except Failure String :=
  heap.showStore showLimit

/-- The text that shows a value. -/
def shown (heap : Heap) (value : Value) : Except Failure String :=
  (heap.current value).shown heap.showAnyStore []

/-- The text of a tree as the reader accepts it. -/
def source (heap : Heap) (value : Value) : Except Failure String :=
  (heap.current value).source heap.showAnyStore

/-- The text of a value for people. -/
def display (heap : Heap) (value : Value) : Except Failure String :=
  (heap.current value).display heap.showAnyStore

/-- The text a value contributes to a text built by an expression. -/
def textPart (heap : Heap) (value : Value) : Except Failure String :=
  (heap.current value).textPart heap.showAnyStore

end Heap

end CueScript
