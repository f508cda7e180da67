import CueScript.Proofs.Run.Reach
import CueScript.Proofs.Twin.Rename

/-!
# What a renaming leaves as it is

A value changes under a renaming only by the numbers in it.  Where bounds say which of them it
may lead to, it is enough that the renaming leaves those as they are.
-/

namespace CueScript

/-- Whether a renaming changes only numbers of tables, and of scopes that no value within the
bounds leads to. -/
structure Renaming.Fixes (ρ : Renaming) (bounds : Bounds) : Prop where
  births : ∀ birth, ρ.births birth = birth
  scopes : bounds.escapes → ∀ id, bounds.scopes id → ρ.scopes id = id

namespace Renaming.Fixes

open Value

variable {ρ : Renaming} {bounds : Bounds}

mutual

/-- What is within the bounds stays as it is. -/
theorem rename_eq (fixes : ρ.Fixes bounds) (value : Value) (within : value.Within bounds) :
    value.rename ρ = value := by
  cases value with
  | list items birth => rw [rename_list, fixes.births, fixes.map_rename_eq items within.2]
  | vector items birth => rw [rename_vector, fixes.births, fixes.map_rename_eq items within.2]
  | quoted form => rw [rename_quoted, fixes.rename_eq form within]
  | tuple items => rw [rename_tuple, fixes.map_rename_eq items within]
  | map entries birth => rw [rename_map, fixes.births, fixes.map_renameEntry_eq entries within.2]
  | closure id name params rest body inside owner =>
      rw [rename_closure, fixes.births, fixes.map_rename_eq body within.1,
        fixes.scopes within.2.2.2.2 inside within.2.2.1]
  | instanceTest id lineage => rw [rename_instanceTest, fixes.births]
  | event id origin members =>
      rw [rename_event, fixes.births, fixes.map_renameMember_eq members within]
  | method id result => rw [rename_method, fixes.births, fixes.rename_eq result within]
  | member receiver name => rw [rename_member, fixes.rename_eq receiver within]
  | scope id => rw [rename_scope, fixes.scopes within.2 id within.1]
  | float number birth => rw [rename_float, fixes.births]
  | _ => rfl

theorem map_rename_eq
    (fixes : ρ.Fixes bounds) (items : List Value) (within : AllWithin bounds items) :
    items.map (rename ρ) = items := by
  cases items with
  | nil => rfl
  | cons item rest =>
      rw [List.map_cons, fixes.rename_eq item within.1, fixes.map_rename_eq rest within.2]

theorem map_renameEntry_eq
    (fixes : ρ.Fixes bounds) (entries : List (Value × Value))
    (within : EntriesWithin bounds entries) :
    entries.map (renameEntry ρ) = entries := by
  cases entries with
  | nil => rfl
  | cons entry rest =>
      rw [List.map_cons, fixes.renameEntry_eq entry within.1,
        fixes.map_renameEntry_eq rest within.2]

theorem renameEntry_eq
    (fixes : ρ.Fixes bounds) (entry : Value × Value) (within : EntryWithin bounds entry) :
    renameEntry ρ entry = entry := by
  cases entry with
  | mk key value =>
      rw [renameEntry_mk, fixes.rename_eq key within.1, fixes.rename_eq value within.2]

theorem map_renameMember_eq
    (fixes : ρ.Fixes bounds) (members : List (String × Value))
    (within : MembersWithin bounds members) :
    members.map (renameMember ρ) = members := by
  cases members with
  | nil => rfl
  | cons first rest =>
      rw [List.map_cons, fixes.renameMember_eq first within.1,
        fixes.map_renameMember_eq rest within.2]

theorem renameMember_eq
    (fixes : ρ.Fixes bounds) (first : String × Value) (within : MemberWithin bounds first) :
    renameMember ρ first = first := by
  cases first with
  | mk name value => rw [renameMember_mk, fixes.rename_eq value within]

end

theorem find?_eq
    (fixes : ρ.Fixes bounds) {entries : ValueEntries} (within : EntriesWithin bounds entries)
    (key : Value) :
    (Entries.find? sameKey key entries).map (rename ρ) = Entries.find? sameKey key entries := by
  cases isFound : Entries.find? sameKey key entries with
  | none => rfl
  | some value =>
      rw [Option.map_some, fixes.rename_eq value (within_of_find within isFound)]

end Renaming.Fixes

end CueScript
