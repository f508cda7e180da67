/-!
# Entries in order of insertion

Maps, stores and scopes are lists of key/value pairs in which no two keys are
the same.  Sameness of keys is given by a test on a stored key and a probe, so
that keys with different spellings can share an entry: replacing a value keeps
the entry's place and its first spelling, a removed key that comes back goes last.
-/

namespace CueScript

/-- Key/value pairs in order of insertion. -/
abbrev Entries (κ α : Type) := List (κ × α)

namespace Entries

variable {κ α : Type}

/-- The value of the first entry whose key is the same as the probe. -/
def find? (same : κ → κ → Bool) (probe : κ) : Entries κ α → Option α
  | [] => none
  | (key, value) :: rest =>
      if same key probe then some value else find? same probe rest

/-- Whether some entry has the same key as the probe. -/
def has (same : κ → κ → Bool) (probe : κ) (entries : Entries κ α) : Bool :=
  entries.any fun entry => same entry.1 probe

/-- Set the value under a key: in place if the key is there, else at the end. -/
def put (same : κ → κ → Bool) (key : κ) (value : α) : Entries κ α → Entries κ α
  | [] => [(key, value)]
  | (stored, old) :: rest =>
      if same stored key then
        (stored, value) :: rest
      else
        (stored, old) :: put same key value rest

/-- Remove the entry with the same key as the probe. -/
def erase (same : κ → κ → Bool) (probe : κ) : Entries κ α → Entries κ α
  | [] => []
  | (stored, old) :: rest =>
      if same stored probe then rest else (stored, old) :: erase same probe rest

/-- Put pairs one after the other. -/
def putAll (same : κ → κ → Bool) (pairs : List (κ × α)) (entries : Entries κ α) :
    Entries κ α :=
  pairs.foldl (fun built pair => put same pair.1 pair.2 built) entries

/-- The keys in order. -/
def keys (entries : Entries κ α) : List κ := entries.map Prod.fst

/-- The values in order. -/
def values (entries : Entries κ α) : List α := entries.map Prod.snd

end Entries

end CueScript
