import CueScript.Failure
import CueScript.Value.Equality

/-!
# Look-up and change of maps

The operations on the entries of a map or a store.  Each one first asks that the
key can be a key at all; a list or a map cannot.
-/

namespace CueScript

namespace ValueEntries

/-- Do something with a key, if it can be one. -/
def withKey {α : Type} (key : Value) (result : α) : Except Failure α :=
  if key.isKey then pure result else throw .wrongType

/-- The value under a key. -/
def get? (entries : ValueEntries) (key : Value) : Except Failure (Option Value) :=
  withKey key (Entries.find? Value.sameKey key entries)

/-- Whether there is a value under a key. -/
def has (entries : ValueEntries) (key : Value) : Except Failure Bool :=
  withKey key (Entries.has Value.sameKey key entries)

/-- Set the value under a key. -/
def put (entries : ValueEntries) (key value : Value) : Except Failure ValueEntries :=
  withKey key (Entries.put Value.sameKey key value entries)

/-- The value under a key that is to be removed; where nothing is stored, the key is
not looked at. -/
def taken? (entries : ValueEntries) (key : Value) : Except Failure (Option Value) :=
  if entries.isEmpty then pure none else get? entries key

/-- Remove the entry under a key; where nothing is stored, the key is not looked
at. -/
def erase (entries : ValueEntries) (key : Value) : Except Failure ValueEntries :=
  if entries.isEmpty then
    pure []
  else
    withKey key (Entries.erase Value.sameKey key entries)

/-- Remove the entries under keys, one after the other. -/
def eraseAll (entries : ValueEntries) : List Value → Except Failure ValueEntries
  | [] => pure entries
  | key :: rest => do
      let left ← erase entries key
      eraseAll left rest

/-- Set the values of pairs, one after the other. -/
def putAll (entries : ValueEntries) : List (Value × Value) → Except Failure ValueEntries
  | [] => pure entries
  | (key, value) :: rest => do
      let built ← put entries key value
      putAll built rest

end ValueEntries

end CueScript
