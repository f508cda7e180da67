import CueScript.Action
import CueScript.Value.Map

/-!
# Access to values

The protocols that built-in functions share: which members a value has, whether it
is present, its items, its length, and looking something up in it.

Functions that values hold may be called on the way.  How a call is made is a
parameter (`Caller`), because a call may evaluate a closure.

Built-in functions get arguments that are up to date (`Heap.current`).  What is
called on the way may take items from a list or add entries to a map;
`Access.goThrough` keeps up with that.
-/

namespace CueScript

/-- How a function value is called with arguments. -/
abbrev Caller := Value → List Value → Action Value

namespace Access

/-- The operations of a store, as members. -/
def storeOperations : List String :=
  ["get", "get_in", "set", "remove", "update", "compare_and_set", "snapshot", "clear"]

/-- The operations of a map that built-in functions use, as members. -/
def mapOperations : List String := ["get", "keys", "values", "update"]

/-- The operations of an evaluator, as members. -/
def evaluatorOperations : List String := [
  "host_depth", "evaluate", "evaluate_body", "apply",
  "_symbol", "_combination", "_member", "_call_host"]

/-- The member of an event. -/
def eventMember? (origin : EventClass) (members : List (String × Value))
    (receiver : Value) (name : String) : Option Value :=
  match Entries.find? (· == ·) name members with
  | some value => some value
  | none =>
      if origin = .record ∧ name = "from_mapping" then
        some (.member receiver name)
      else
        none

/-- The members of a closure other than its scope. -/
def closureMember? (closure : Value) (name : String) : Option Value :=
  match closure with
  | .closure _ shownName params rest body _ evaluator =>
      match name with
      | "name" => some (.str shownName)
      | "params" => some (.tuple (params.map .str))
      | "rest" => some (rest.elim .nil .str)
      | "body" => some (.tuple body)
      | "evaluator" => some (.evaluator evaluator)
      | "invoke" => some (.member closure name)
      | _ => none
  | _ => none

/-- The member of a value with a name, if it has one. -/
def member? (value : Value) (name : String) : Action (Option Value) := do
  match value with
  | .event _ origin members => pure (eventMember? origin members value name)
  | .store id =>
      if name = "name" then
        return some (.str ((← get).storeName id))
      else if name = "_data" then
        match (← get).stores[id]? with
        | some store => return some (← Action.change fun heap => heap.view store.table)
        | none => return none
      else if name ∈ storeOperations then
        return some (.member value name)
      else
        return none
  | .map .. =>
      return if name ∈ mapOperations then some (.member value name) else none
  | .list .. =>
      return if name = "remove" then some (.member value name) else none
  | .kind eventKind =>
      match name with
      | "value" => return some (.str eventKind.tag)
      | "name" => return some (.str eventKind.constantName)
      | "keyword" => return some (.str eventKind.keyword)
      | "parse" | "of" => return some (.member value name)
      | _ => return (EventKind.all.find? fun each => each.constantName == name).map .kind
  | .constant constantName =>
      return if name = "name" then some (.str constantName) else none
  | .closure _ _ _ _ _ scope _ =>
      if name = "env" then
        return some ((← get).scopeValue scope)
      else
        pure (closureMember? value name)
  | .vector items birth => return if name = "I" then some (.list items birth) else none
  | .quoted form => return if name = "x" then some form else none
  | .symbol _ => return if name = "value" then some (.member value name) else none
  | .scope id =>
      match name with
      | "vars" =>
          match (← get).scopes[id]? with
          | some ⟨.table table, _⟩ => return some (← Action.change fun heap => heap.view table)
          | some ⟨.inside holder, _⟩ => return some holder
          | _ => return none
      | "parent" =>
          let heap ← get
          let outer := ((heap.scopes[id]?).map Scope.outer).getD []
          return some (outer.head?.elim .nil .scope)
      | "lookup" | "define" | "child" => return some (.member value name)
      | _ => return none
  | .evaluator id =>
      if name = "config" then
        return some (.settings ((← get).config id))
      else if name ∈ evaluatorOperations then
        return some (.member value name)
      else
        return none
  | .settings config =>
      match name with
      | "max_depth" => return some (.int config.maxDepth)
      | "filename" => return some (.str config.filename)
      | "log_tracebacks" => return some (.bool config.logTracebacks)
      | "validate" => return some (.member value name)
      | _ => return none
  | _ => return none

/-- The member of a value with a name, which it has to have. -/
def member (value : Value) (name : String) : Action Value := do
  match ← member? value name with
  | some found => return found
  | none => Action.fail .noAttribute

/-- Call an operation of a value by its name. -/
def callMember (call : Caller) (value : Value) (name : String) (args : List Value) :
    Action Value := do
  let operation ← member value name
  call operation args

/-- Whether a value can be called like a function by built-in functions. -/
def isCallable : Value → Bool
  | .closure .. | .builtin _ | .instanceTest .. | .keyword _ | .method .. | .member .. => true
  | _ => false

/-! ## Collections -/

/-- Whether a value is present: not `nil`, not false, not zero and not empty. -/
def isPresent (value : Value) : Action Bool := do
  match value with
  | .nil => return false
  | .list items _ => return !items.isEmpty
  | .tuple items => return !items.isEmpty
  | .map entries _ => return !entries.isEmpty
  | .store id => return !((← get).entries id).isEmpty
  | _ =>
      match value.toNumeric?, value.toText? with
      | some number, _ => return !number.equal (.int 0)
      | none, some text => return !text.isEmpty
      | none, none => return true

/-- The items of a collection in order: characters of a text, keys of a map or a
store. -/
def items (value : Value) : Action (List Value) := do
  match value with
  | .list items _ => return items
  | .map entries _ => return Entries.keys entries
  | .store id => return Entries.keys ((← get).entries id)
  | _ =>
      match value.toTuple?, value.toText? with
      | some items, _ => return items
      | none, some text => return Value.ofChars text
      | none, none => Action.fail .wrongType

/-- The items of a collection; a value that is not present has none. -/
def itemsIfPresent (value : Value) : Action (List Value) := do
  if ← isPresent value then items value else return []

/-- The number of items of a collection. -/
def length (value : Value) : Action Nat := do
  return (← items value).length

/-- The item of a list at a position; a negative position counts from the end. -/
def nthItem? (items : List Value) (position : Int) : Option Value :=
  if 0 ≤ position then
    items[position.toNat]?
  else if -(items.length : Int) ≤ position then
    items[(items.length + position).toNat]?
  else
    none

/-- The items of a list, tuple or text, which have positions. -/
def positioned? (value : Value) : Option (List Value) :=
  match value with
  | .list items _ => some items
  | _ =>
      match value.toTuple?, value.toText? with
      | some items, _ => some items
      | none, some text => some (Value.ofChars text)
      | none, none => none

/-- The item of a collection under a position, or a key of a map. -/
def itemAt (collection key : Value) : Action Value := do
  match collection with
  | .map entries _ =>
      match ← Action.ofExcept (ValueEntries.get? entries key) with
      | some value => return value
      | none => Action.fail .noKey
  | _ =>
      match positioned? collection, key.toInt? with
      | some items, some position =>
          match nthItem? items position with
          | some item => return item
          | none => Action.fail (.indexOutOfBounds (toString position))
      | _, _ => Action.fail .wrongType

/-- All items of a collection with positions but the first. -/
def itemsAfterFirst (collection : Value) : Action (List Value) :=
  match positioned? collection with
  | some items => return items.tail
  | none => Action.fail .wrongType

/-! ## Going through items -/

/-- How going through items goes on after a step. -/
inductive Progress (σ : Type) where
  | more (state : σ)
  | enough (state : σ)

/-- Whether a map with a number has another number of entries than at first. -/
def hasChangedSize (heap : Heap) (birth size : Nat) : Bool :=
  match heap.viewed? birth with
  | some table => (heap.table table).length != size
  | none => false

/-- What is still to come of the items of a collection when some are done.  A map must
not get further entries on the way. -/
def upcoming (collection : Value) (done : Nat) (rest : List Value) :
    Action (List Value) := do
  match collection with
  | .list _ birth => Action.upcoming birth done rest
  | .map entries birth =>
      if hasChangedSize (← get) birth entries.length then
        Action.fail .changedSize
      else
        return rest
  | _ => return rest

/-- Take steps over the items of a collection until they end or a step says so.  The
budget is one more than the number of items, which never grows: the last round finds
that nothing is to come. -/
def goThrough {σ : Type} (collection : Value) (step : σ → Value → Action (Progress σ)) :
    (budget done : Nat) → List Value → σ → Action σ
  | 0, _, _, state => return state
  | budget + 1, done, rest, state => do
      match ← upcoming collection done rest with
      | [] => return state
      | item :: others =>
          match ← step state item with
          | .more next => goThrough collection step budget (done + 1) others next
          | .enough result => return result

/-- Take steps over the items of a collection from the first one on. -/
def overItems {σ : Type} (collection : Value) (found : List Value)
    (step : σ → Value → Action (Progress σ)) (start : σ) : Action σ :=
  goThrough collection step (found.length + 1) 0 found start

/-! ## Look-up -/

/-- The look-up operation of a value, if it has one. -/
def getter? (value : Value) : Action (Option Value) := do
  match ← member? value "get" with
  | some .nil => return none
  | found => return found

/-- What look-ups have for a default where there is none. -/
def unset : Value := .unset 0

/-- What look-ups that begin at a store have for a default where there is none. -/
def unsetInStore : Value := .unset 1

/-- What a look-up has found, unless it has come back with the default that stands for
none. -/
def answered (id : Nat) (found : Option Value) : Option Value :=
  found.filter fun value => !value.isUnset id

/-- Use a look-up operation that is not a keyword.  Without a default, what is called
gets `unset` in its place and may give it back. -/
def getPlainly (call : Caller) (getter key : Value) (default : Option Value) :
    Action (Option Value) := do
  match ← Action.current getter with
  | .member (.map entries _) "get" =>
      return (← Action.ofExcept (ValueEntries.get? entries key)) <|> default
  | .member (.store id) "get" =>
      let entries := (← get).entries id
      return (← Action.ofExcept (ValueEntries.get? entries key)) <|> default
  | _ => return some (← call getter [key, default.getD unset])

/-- Use a look-up operation.  A keyword in its place looks itself up in the key. -/
def getWith (call : Caller) (getter key : Value) (default : Option Value) :
    Action (Option Value) := do
  match getter with
  | .keyword _ =>
      match ← getter? key with
      | none => return default
      | some (.keyword _) => return default
      | some inner => getPlainly call inner getter default
  | _ => getPlainly call getter key default

/-- Look a key up in a collection: a position in a list or tuple, a key in anything
that has a look-up operation, and the default in everything else. -/
def lookup (call : Caller) (holder key : Value) (default : Option Value) :
    Action (Option Value) := do
  let collection ← Action.current holder
  let byGetter : Action (Option Value) := do
    match ← getter? collection with
    | none => return default
    | some getter => getWith call getter key default
  match collection, key with
  | .nil, _ => return default
  | .list items _, .int position => return nthItem? items position <|> default
  | _, .int position =>
      match collection.toTuple? with
      | some items => return nthItem? items position <|> default
      | none => byGetter
  | _, _ => byGetter

/-- Look up the keys of a path one inside the other. -/
def lookupPath (call : Caller) (collection path : Value) : Action (Option Value) := do
  let step (found : Option Value) (key : Value) : Action (Progress (Option Value)) := do
    match found with
    | none => return .enough none
    | some value =>
        match answered 0 (← lookup call value key none) with
        | some next => return .more (some next)
        | none => return .enough none
  overItems path (← items path) step (some collection)

/-- Call a keyword: it looks itself up in its argument. -/
def callKeyword (call : Caller) (keyword : Value) (args : List Value) : Action Value := do
  let look (mapping default : Value) : Action Value := do
    match ← getter? mapping with
    | none => return default
    | some getter => call getter [keyword, default]
  match args with
  | [mapping] => look mapping .nil
  | [mapping, default] => look mapping default
  | _ => Action.fail .wrongType

/-- Follow a path through nested maps, beginning at a store.  A step that finds
nothing or `nil` ends with the default. -/
def followPath (call : Caller) : Option Value → List Value → Action (Option Value)
  | found, [] => return found
  | none, _ => return none
  | some .nil, _ => return none
  | some value, key :: rest => do
      match ← getter? value with
      | none => followPath call none rest
      | some getter =>
          let next ← getWith call getter key (some unsetInStore)
          followPath call (answered 1 next) rest

end Access

end CueScript
