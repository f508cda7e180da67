import CueScript.Value

/-!
# Telling lists, maps and results without a number apart

Two lists that are written alike are different things: one can lose items without
the other.  So are two maps, and two literals that are no number.  Before a tree is
used, each of them gets a number of its own, unless it has one already.
-/

namespace CueScript

namespace Value

/-- The number of something and the next unused number after it; what has a number
keeps it. -/
def numbered (birth next : Nat) : Nat × Nat :=
  if birth = 0 then (next, next + 1) else (birth, next)

mutual

/-- A tree in which each list, each map and each literal that is no number has a number
of its own, new ones from the next unused number on, and the next unused number after
it. -/
def tellApart (next : Nat) : Value → Value × Nat
  | .float .nan birth =>
      let (own, after) := numbered birth next
      (.float .nan own, after)
  | .list items birth =>
      let (told, after) := tellItemsApart next items
      let (own, last) := numbered birth after
      (.list told own, last)
  | .vector items birth =>
      let (told, after) := tellItemsApart next items
      let (own, last) := numbered birth after
      (.vector told own, last)
  | .tuple items =>
      let (told, after) := tellItemsApart next items
      (.tuple told, after)
  | .quoted form =>
      let (told, after) := tellApart next form
      (.quoted told, after)
  | .map entries birth =>
      let (told, after) := tellEntriesApart next entries
      let (own, last) := numbered birth after
      (.map told own, last)
  | value => (value, next)

/-- The same for the items of a list. -/
def tellItemsApart (next : Nat) : List Value → List Value × Nat
  | [] => ([], next)
  | item :: rest =>
      let (told, after) := tellApart next item
      let (others, last) := tellItemsApart after rest
      (told :: others, last)

/-- The same for the entries of a map. -/
def tellEntriesApart (next : Nat) : List (Value × Value) → List (Value × Value) × Nat
  | [] => ([], next)
  | entry :: rest =>
      let (told, after) := tellEntryApart next entry
      let (others, last) := tellEntriesApart after rest
      (told :: others, last)

/-- The same for an entry of a map. -/
def tellEntryApart (next : Nat) : Value × Value → (Value × Value) × Nat
  | (key, value) =>
      let (toldKey, after) := tellApart next key
      let (toldValue, last) := tellApart after value
      ((toldKey, toldValue), last)

end

end Value

end CueScript
