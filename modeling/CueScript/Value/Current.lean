import CueScript.Value

/-!
# Values as they are now

A list can lose items and a map can get further entries while they are in use, and
everything that holds them sees it.  A value keeps what its lists and maps were made
with; `Holdings` says what those hold now that have changed, and `Value.current` is a
value in which every list and every map has what it holds now.
-/

namespace CueScript

/-- What lists and maps hold now, by their numbers; nothing is said of those that hold
what they were made with. -/
structure Holdings where
  items : Nat → Option (List Value)
  entries : Nat → Option (List (Value × Value))

namespace Holdings

/-- Everything holds what it was made with. -/
def unchanged : Holdings := ⟨fun _ => none, fun _ => none⟩

end Holdings

namespace Value

mutual

/-- A value in which every list and every map has what it holds now. -/
def current (holdings : Holdings) : Value → Value
  | .list items birth =>
      match holdings.items birth with
      | some held => .list held birth
      | none => .list (currentItems holdings items) birth
  | .vector items birth =>
      match holdings.items birth with
      | some held => .vector held birth
      | none => .vector (currentItems holdings items) birth
  | .map entries birth =>
      match holdings.entries birth with
      | some held => .map held birth
      | none => .map (currentEntries holdings entries) birth
  | .quoted form => .quoted (current holdings form)
  | .tuple items => .tuple (currentItems holdings items)
  | .event id origin members => .event id origin (currentMembers holdings members)
  | .method id result => .method id (current holdings result)
  | .member receiver name => .member (current holdings receiver) name
  | value => value

/-- The same for the items of a list. -/
def currentItems (holdings : Holdings) : List Value → List Value
  | [] => []
  | item :: rest => current holdings item :: currentItems holdings rest

/-- The same for the entries of a map. -/
def currentEntries (holdings : Holdings) : List (Value × Value) → List (Value × Value)
  | [] => []
  | entry :: rest => currentEntry holdings entry :: currentEntries holdings rest

/-- The same for an entry of a map. -/
def currentEntry (holdings : Holdings) : Value × Value → Value × Value
  | (key, value) => (current holdings key, current holdings value)

/-- The same for the members of an event. -/
def currentMembers (holdings : Holdings) : List (String × Value) → List (String × Value)
  | [] => []
  | first :: rest => currentMember holdings first :: currentMembers holdings rest

/-- The same for a member of an event. -/
def currentMember (holdings : Holdings) : String × Value → String × Value
  | (name, value) => (name, current holdings value)

end

end Value

end CueScript
