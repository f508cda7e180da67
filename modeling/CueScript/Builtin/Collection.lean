import CueScript.Builtin.Access
import CueScript.Value.Order

/-!
# Collections

`conj`, `assoc` and `dissoc` give new lists and maps.  A map can
be made from another map or from a collection of pairs.  `nil` counts as an empty
collection, and so does any value that is not present where a function says so.
-/

namespace CueScript

namespace Collection

/-- The arguments of a map in pairs, if they pair up. -/
def pairs? : List Value → Option (List (Value × Value))
  | [] => some []
  | [_] => none
  | key :: value :: rest => (pairs? rest).map ((key, value) :: ·)

/-- A map with the entries of pairs; later pairs replace earlier ones. -/
def hashMap (args : List Value) : Action Value :=
  match pairs? args with
  | none => Action.fail .oddMapArguments
  | some pairs => do
      Action.newMap (← Action.ofExcept (ValueEntries.putAll [] pairs))

/-- The entries that collections of two items stand for. -/
def entriesOfPairs : List Value → ValueEntries → Action ValueEntries
  | [], built => return built
  | pair :: rest, built => do
      match ← Access.items pair with
      | [key, value] => do
          let next ← Action.ofExcept (ValueEntries.put built key value)
          entriesOfPairs rest next
      | _ => Action.fail .badValue

/-- The entries of an event that lists keys.  No event has values under keys, so it
must not list any. -/
def entriesOfEvent (call : Caller) (event : Value) : Action ValueEntries := do
  match ← Access.member? event "keys" with
  | none => Action.fail .wrongType
  | some operation => do
      let keys ← Action.current (← call operation [])
      if (← Access.items keys).isEmpty then return [] else Action.fail .wrongType

/-- The entries of a map or of a collection of pairs; `nil` has none. -/
def entriesOf (call : Caller) (value : Value) : Action ValueEntries := do
  match value with
  | .nil => return []
  | .map entries _ => return entries
  | .event .. => entriesOfEvent call value
  | _ => do
      let pairs ← Access.items value
      entriesOfPairs pairs []

/-- The map with further entries. -/
def assoc (call : Caller) (value : Value) (args : List Value) : Action Value :=
  match pairs? args with
  | none => Action.fail .unpairedAssoc
  | some pairs => do
      let entries ← entriesOf call value
      Action.newMap (← Action.ofExcept (ValueEntries.putAll entries pairs))

/-- The map without some keys. -/
def dissoc (call : Caller) (value : Value) (keys : List Value) : Action Value := do
  let entries ← entriesOf call value
  Action.newMap (← Action.ofExcept (ValueEntries.eraseAll entries keys))

/-- Whether a piece occurs in a text in one stretch. -/
def occursIn (piece : List Char) : List Char → Bool
  | [] => piece.isEmpty
  | c :: rest => piece.isPrefixOf (c :: rest) || occursIn piece rest

/-- Whether a collection contains a key: a list contains its positions, a text its
pieces. -/
def contains (collection key : Value) : Action Bool := do
  let inPositions (size : Nat) : Bool :=
    match key.toInt? with
    | some position => decide (0 ≤ position ∧ position < size)
    | none => false
  match collection with
  | .nil => return false
  | .map entries _ => Action.ofExcept (ValueEntries.has entries key)
  | .store id => do
      let entries := (← get).entries id
      Action.ofExcept (ValueEntries.has entries key)
  | .list items _ => return inPositions items.length
  | _ =>
      match collection.toTuple?, collection.toText?, key.toText? with
      | some items, _, _ => return inPositions items.length
      | none, some text, some piece => return occursIn piece.toList text.toList
      | none, _, _ => Action.fail .wrongType

/-- The number of items; `nil` has none. -/
def count (collection : Value) : Action Nat := do
  match collection with
  | .nil => return 0
  | _ => Access.length collection

/-- The first item; a value that is not present has none. -/
def first (collection : Value) : Action Value := do
  if ← Access.isPresent collection then
    Access.itemAt collection (.int 0)
  else
    return .nil

/-- The second item, if there is one. -/
def second (collection : Value) : Action Value := do
  if 1 < (← count collection) then
    Access.itemAt collection (.int 1)
  else
    return .nil

/-- All items but the first; a value that is not present has none. -/
def rest (collection : Value) : Action Value := do
  if ← Access.isPresent collection then
    Action.newList (← Access.itemsAfterFirst collection)
  else
    Action.newList []

/-- The item at a position, or a default, or a failure that tells the position. -/
def nth (collection index : Value) (default : Option Value) : Action Value := do
  let inside : Action Bool := do
    match collection with
    | .nil => return false
    | _ => do
        if ← Action.ofExcept (Value.compares .atMost (.int 0) index) then
          let size ← Access.length collection
          Action.ofExcept (Value.compares .less index (.int size))
        else
          return false
  if ← inside then
    Access.itemAt collection index
  else
    match default with
    | some value => return value
    | none => Action.fail (.indexOutOfBounds (← Action.display index))

/-- A list of all items and further ones. -/
def conj (collection : Value) (items : List Value) : Action Value := do
  Action.newList ((← Access.itemsIfPresent collection) ++ items)

/-- The list that an operation of a map without arguments gives; a value that is not
present has none. -/
def listed (call : Caller) (operation : String) (collection : Value) : Action Value := do
  if ← Access.isPresent collection then
    let result ← Action.current (← Access.callMember call collection operation [])
    Action.newList (← Access.items result)
  else
    return .nil

/-! ## Functions on collections -/

/-- The results of a function on each item. -/
def mapItems (call : Caller) (function collection : Value) : Action Value := do
  let step (results : List Value) (item : Value) :
      Action (Access.Progress (List Value)) := do
    return .more ((← call function [item]) :: results)
  let items ← Access.itemsIfPresent collection
  let results ← Access.overItems collection items step []
  Action.newList results.reverse

/-- The items for which a function gives something true. -/
def filterItems (call : Caller) (function collection : Value) : Action Value := do
  let step (kept : List Value) (item : Value) :
      Action (Access.Progress (List Value)) := do
    let result ← call function [item]
    return .more (if result.isTrue then item :: kept else kept)
  let items ← Access.itemsIfPresent collection
  let kept ← Access.overItems collection items step []
  Action.newList kept.reverse

/-- The first true result of a function on the items. -/
def someItem (call : Caller) (function collection : Value) : Action Value := do
  let step (_ item : Value) : Action (Access.Progress Value) := do
    let result ← call function [item]
    return if result.isTrue then .enough result else .more .nil
  let items ← Access.itemsIfPresent collection
  Access.overItems collection items step .nil

/-- A step in combining items from left to right. -/
def combineStep (call : Caller) (function result item : Value) :
    Action (Access.Progress Value) := do
  return .more (← call function [result, item])

/-- Combine the items of a collection, beginning with a value or with the first
item. -/
def reduce (call : Caller) (function : Value) (args : List Value) : Action Value := do
  match args with
  | [collection] =>
      match ← Access.items collection with
      | [] => Action.fail .wrongType
      | item :: rest =>
          Access.goThrough collection (combineStep call function) (rest.length + 1) 1 rest item
  | [start, collection] => do
      let items ← Access.items collection
      Access.overItems collection items (combineStep call function) start
  | _ => Action.fail .badValue

/-- Call a function with arguments of which the last is a collection of more. -/
def apply (call : Caller) (function : Value) (args : List Value) : Action Value := do
  match args.getLast? with
  | none => call function []
  | some last => do
      let more ← Access.itemsIfPresent last
      call function (args.dropLast ++ more)

end Collection

end CueScript
