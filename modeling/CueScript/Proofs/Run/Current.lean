import CueScript.Heap

/-!
# Values as they are now

A value that is up to date stays as it is, and a list that has lost nothing is still made
of its items.  A table that is set holds what it was set to.
-/

namespace CueScript

/-- Whether one has something to say of all lists and maps that another says something
of. -/
structure Holdings.Covers (later first : Holdings) : Prop where
  items : ∀ birth, (first.items birth).isSome = true → (later.items birth).isSome = true
  entries : ∀ birth, (first.entries birth).isSome = true → (later.entries birth).isSome = true

namespace Value

variable {holdings : Holdings}

theorem currentItems_eq (items : List Value) :
    currentItems holdings items = items.map (current holdings) := by
  induction items with
  | nil => rfl
  | cons item rest inductionHypothesis =>
      rw [currentItems, inductionHypothesis, List.map_cons]

theorem currentEntries_eq (entries : List (Value × Value)) :
    currentEntries holdings entries =
      entries.map fun entry => (current holdings entry.1, current holdings entry.2) := by
  induction entries with
  | nil => rfl
  | cons entry rest inductionHypothesis =>
      obtain ⟨key, value⟩ := entry
      rw [currentEntries, currentEntry, inductionHypothesis, List.map_cons]

variable {first later : Holdings}

mutual

/-- What was brought up to date earlier is brought up to date as if it had not been. -/
theorem current_of_current (covers : later.Covers first) (value : Value) :
    (value.current first).current later = value.current later := by
  cases value with
  | list items birth =>
      rw [current]
      cases held : first.items birth with
      | some left =>
          obtain ⟨now, isNow⟩ := Option.isSome_iff_exists.mp (covers.items birth (by simp [held]))
          simp only [current, isNow]
      | none => simp only [current, currentItems_of_currentItems covers items]
  | vector items birth =>
      rw [current]
      cases held : first.items birth with
      | some left =>
          obtain ⟨now, isNow⟩ := Option.isSome_iff_exists.mp (covers.items birth (by simp [held]))
          simp only [current, isNow]
      | none => simp only [current, currentItems_of_currentItems covers items]
  | map entries birth =>
      rw [current]
      cases held : first.entries birth with
      | some left =>
          obtain ⟨now, isNow⟩ :=
            Option.isSome_iff_exists.mp (covers.entries birth (by simp [held]))
          simp only [current, isNow]
      | none => simp only [current, currentEntries_of_currentEntries covers entries]
  | quoted form => rw [current, current, current, current_of_current covers form]
  | tuple items => rw [current, current, current, currentItems_of_currentItems covers items]
  | event id origin members =>
      rw [current, current, current, currentMembers_of_currentMembers covers members]
  | method id result => rw [current, current, current, current_of_current covers result]
  | member receiver name => rw [current, current, current, current_of_current covers receiver]
  | _ => rfl

theorem currentItems_of_currentItems (covers : later.Covers first) (items : List Value) :
    currentItems later (currentItems first items) = currentItems later items := by
  cases items with
  | nil => rfl
  | cons item rest =>
      rw [currentItems, currentItems, currentItems, current_of_current covers item,
        currentItems_of_currentItems covers rest]

theorem currentEntries_of_currentEntries (covers : later.Covers first)
    (entries : List (Value × Value)) :
    currentEntries later (currentEntries first entries) = currentEntries later entries := by
  cases entries with
  | nil => rfl
  | cons entry rest =>
      rw [currentEntries, currentEntries, currentEntries, currentEntry_of_currentEntry covers entry,
        currentEntries_of_currentEntries covers rest]

theorem currentEntry_of_currentEntry (covers : later.Covers first) (entry : Value × Value) :
    currentEntry later (currentEntry first entry) = currentEntry later entry := by
  cases entry with
  | mk key value =>
      rw [currentEntry, currentEntry, currentEntry, current_of_current covers key,
        current_of_current covers value]

theorem currentMembers_of_currentMembers (covers : later.Covers first)
    (members : List (String × Value)) :
    currentMembers later (currentMembers first members) = currentMembers later members := by
  cases members with
  | nil => rfl
  | cons member rest =>
      rw [currentMembers, currentMembers, currentMembers,
        currentMember_of_currentMember covers member,
        currentMembers_of_currentMembers covers rest]

theorem currentMember_of_currentMember (covers : later.Covers first) (member : String × Value) :
    currentMember later (currentMember first member) = currentMember later member := by
  cases member with
  | mk name value =>
      rw [currentMember, currentMember, currentMember, current_of_current covers value]

end

end Value

namespace Heap

variable {heap : Heap}

theorem isSome_items_present (birth : Nat) :
    (heap.present.items birth).isSome = (heap.left? birth).isSome := by
  unfold Heap.present
  cases budget : (heap.views.length + 1) * (heap.losses.length + 1) with
  | zero => simp at budget
  | succ budget => simp [Heap.holdings]

theorem isSome_entries_present (birth : Nat) :
    (heap.present.entries birth).isSome = (heap.viewed? birth).isSome := by
  unfold Heap.present
  cases budget : (heap.views.length + 1) * (heap.losses.length + 1) with
  | zero => simp at budget
  | succ budget => simp [Heap.holdings]

/-- Whether a heap still knows of all losses and views of another. -/
structure Remembers (later heap : Heap) : Prop where
  losses : ∀ birth, (heap.left? birth).isSome = true → (later.left? birth).isSome = true
  views : ∀ birth, (heap.viewed? birth).isSome = true → (later.viewed? birth).isSome = true

namespace Remembers

variable {later last : Heap}

theorem refl (heap : Heap) : heap.Remembers heap := ⟨fun _ is => is, fun _ is => is⟩

theorem trans (second : last.Remembers later) (first : later.Remembers heap) :
    last.Remembers heap where
  losses birth isLost := second.losses birth (first.losses birth isLost)
  views birth isView := second.views birth (first.views birth isView)

theorem covers (remembers : later.Remembers heap) : later.present.Covers heap.present where
  items birth := by
    rw [isSome_items_present, isSome_items_present]
    exact remembers.losses birth
  entries birth := by
    rw [isSome_entries_present, isSome_entries_present]
    exact remembers.views birth

/-- A heap without losses and views remembers only its like. -/
theorem isUnchanged (remembers : later.Remembers heap) (unchanged : later.isUnchanged = true) :
    heap.isUnchanged = true := by
  simp only [Heap.isUnchanged, Bool.and_eq_true, List.isEmpty_iff] at unchanged ⊢
  constructor
  · cases views : heap.views with
    | nil => rfl
    | cons entry rest =>
        have isView := remembers.views entry.1 (by simp [viewed?, views, Entries.find?])
        simp [viewed?, unchanged.1, Entries.find?] at isView
  · cases losses : heap.losses with
    | nil => rfl
    | cons entry rest =>
        have isLost := remembers.losses entry.1 (by simp [left?, losses, Entries.find?])
        simp [left?, unchanged.2, Entries.find?] at isLost

/-- What was brought up to date earlier is brought up to date as if it had not been. -/
theorem current (remembers : later.Remembers heap) (value : Value) :
    later.current (heap.current value) = later.current value := by
  by_cases unchanged : heap.isUnchanged = true
  · have same : heap.current value = value := if_pos unchanged
    rw [same]
  · have changed : ¬ later.isUnchanged = true := mt remembers.isUnchanged unchanged
    simp only [Heap.current, if_neg unchanged, if_neg changed]
    exact Value.current_of_current remembers.covers value

end Remembers

theorem current_current (value : Value) : heap.current (heap.current value) = heap.current value :=
  (Remembers.refl heap).current value

theorem map_current_eq (items : List Value) :
    items.map heap.current = heap.currentItems items := by
  unfold Heap.current Heap.currentItems
  split
  · exact List.map_id' items
  · exact (Value.currentItems_eq items).symm

/-- A list that has lost nothing holds what it was made with. -/
theorem items_present
    {birth : Nat} (unlost : heap.left? birth = none) : heap.present.items birth = none := by
  unfold Heap.present
  generalize (heap.views.length + 1) * (heap.losses.length + 1) = budget
  cases budget with
  | zero => rfl
  | succ budget => simp only [Heap.holdings, unlost, Option.map_none]

/-- A list that has lost nothing is still made of its items. -/
theorem current_list
    {birth : Nat} (unlost : heap.left? birth = none) (items : List Value) :
    heap.current (.list items birth) = .list (items.map heap.current) birth := by
  rw [map_current_eq]
  unfold Heap.current Heap.currentItems
  split
  · rfl
  · rw [Value.current, items_present unlost]

theorem current_vector
    {birth : Nat} (unlost : heap.left? birth = none) (items : List Value) :
    heap.current (.vector items birth) = .vector (items.map heap.current) birth := by
  rw [map_current_eq]
  unfold Heap.current Heap.currentItems
  split
  · rfl
  · rw [Value.current, items_present unlost]

@[simp]
theorem current_symbol (name : String) : heap.current (.symbol name) = .symbol name := by
  unfold Heap.current
  split <;> rfl

@[simp]
theorem current_str (text : String) : heap.current (.str text) = .str text := by
  unfold Heap.current
  split <;> rfl

@[simp]
theorem current_int (number : Int) : heap.current (.int number) = .int number := by
  unfold Heap.current
  split <;> rfl

@[simp]
theorem current_float (number : Binary64) (birth : Nat) :
    heap.current (.float number birth) = .float number birth := by
  unfold Heap.current
  split <;> rfl

@[simp]
theorem current_quoted (form : Value) :
    heap.current (.quoted form) = .quoted (heap.current form) := by
  unfold Heap.current
  split <;> rfl

/-! ## Tables -/

theorem getElem?_push_of_lt
    {α : Type} {items : Array α} {index : Nat} (below : index < items.size) (item : α) :
    (items.push item)[index]? = items[index]? := by
  rw [Array.getElem?_push, if_neg (Nat.ne_of_lt below)]

theorem getElem?_push_of_some
    {α : Type} {items : Array α} {index : Nat} {held : α} (isHeld : items[index]? = some held)
    (item : α) :
    (items.push item)[index]? = some held :=
  (getElem?_push_of_lt (Array.getElem?_eq_some_iff.mp isHeld).1 item).trans isHeld

theorem getElem?_tables
    {heap : Heap} {id : Nat} (below : id < heap.tables.size) :
    heap.tables[id]? = some (heap.table id) := by
  have held := Array.getElem?_eq_getElem below
  rw [table, held]
  rfl

theorem table_setTable
    {id : Nat} (below : id < heap.tables.size) (entries : ValueEntries) :
    (heap.setTable id entries).table id = entries := by
  simp only [table, setTable, Array.getElem?_modify, Array.getElem?_eq_getElem below, if_true,
    Option.map_some, Option.getD_some]

theorem setTable_of_empty
    {table : Nat} (empty : heap.table table = []) : heap.setTable table [] = heap := by
  have same : heap.tables.modify table (fun _ => []) = heap.tables := by
    apply Array.ext_getElem?
    intro index
    rw [Array.getElem?_modify]
    by_cases isTable : table = index
    · subst isTable
      rw [if_pos rfl]
      unfold Heap.table at empty
      cases held : heap.tables[table]? with
      | none => rfl
      | some entries => simpa [held] using empty.symm
    · rw [if_neg isTable]
  rw [setTable, same]

/-- Nothing changes where an empty store is left without entries. -/
theorem setEntries_of_isEmpty
    {id : Nat} (empty : (heap.entries id).isEmpty = true) :
    heap.setEntries id [] = heap := by
  unfold setEntries
  cases isStore : heap.stores[id]? with
  | none => rfl
  | some store =>
      apply setTable_of_empty
      simp only [entries, isStore, List.isEmpty_iff] at empty
      cases stored : heap.table store.table with
      | nil => rfl
      | cons entry rest =>
          rw [stored] at empty
          split at empty <;> cases empty

end Heap

end CueScript
