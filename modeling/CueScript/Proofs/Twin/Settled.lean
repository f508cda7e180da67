import CueScript.Proofs.Reader.Trees
import CueScript.Proofs.Twin.Change
import CueScript.Value.Birth

/-!
# Numbers that have been given out

A renaming that keeps all numbers that a heap has given out changes nothing that the heap
knows of.  Two runs that start from one heap can therefore be compared under a renaming
that only shifts later numbers.

Telling a tree apart gives out numbers in order.  Where a second run begins further on,
it gets the same tree under shifted numbers.
-/

namespace CueScript

/-! ## Shifts -/

/-- A number with one added for every mark up to it. -/
def shifted (marks : List Nat) (number : Nat) : Nat :=
  number + marks.countP (· ≤ number)

theorem shifted_strictMono (marks : List Nat) {i j : Nat} (less : i < j) :
    shifted marks i < shifted marks j := by
  have counts : marks.countP (· ≤ i) ≤ marks.countP (· ≤ j) := by
    refine List.countP_mono_left fun mark _ upTo => ?_
    simp only [decide_eq_true_eq] at upTo ⊢
    exact Nat.le_trans upTo (Nat.le_of_lt less)
  exact Nat.add_lt_add_of_lt_of_le less counts

theorem shifted_injective (marks : List Nat) : Function.Injective (shifted marks) := by
  intro i j same
  rcases Nat.lt_trichotomy i j with less | equal | greater
  · exact absurd same (Nat.ne_of_lt (shifted_strictMono marks less))
  · exact equal
  · exact absurd same.symm (Nat.ne_of_lt (shifted_strictMono marks greater))

theorem shifted_before
    {marks : List Nat} {number : Nat} (before : ∀ mark ∈ marks, number < mark) :
    shifted marks number = number := by
  have none : marks.countP (· ≤ number) = 0 := by
    rw [List.countP_eq_zero]
    intro mark member
    simpa using before mark member
  rw [shifted, none, Nat.add_zero]

theorem shifted_after
    {marks : List Nat} {number : Nat} (after : ∀ mark ∈ marks, mark ≤ number) :
    shifted marks number = number + marks.length := by
  have all : marks.countP (· ≤ number) = marks.length := by
    rw [List.countP_eq_length]
    intro mark member
    simpa using after mark member
  rw [shifted, all]

namespace Renaming

/-- The renaming that shifts numbers at marks. -/
def shifting (births scopes tables : List Nat) (positive : ∀ mark ∈ births, 0 < mark) :
    Renaming where
  births := shifted births
  scopes := shifted scopes
  tables := shifted tables
  births_injective := shifted_injective births
  births_zero := shifted_before positive
  scopes_injective := shifted_injective scopes
  tables_injective := shifted_injective tables

/-- Whether a renaming changes no number that a heap has given out. -/
structure Keeps (ρ : Renaming) (heap : Heap) : Prop where
  births : ∀ number < heap.births, ρ.births number = number
  scopes : ∀ number < heap.scopes.size, ρ.scopes number = number
  tables : ∀ number < heap.tables.size, ρ.tables number = number

end Renaming

/-! ## What a heap knows of -/

namespace Heap

/-- Whether there are no other numbers in a value than those that a heap has given out. -/
def Knows (heap : Heap) (value : Value) : Prop :=
  ∀ ρ : Renaming, ρ.Keeps heap → value.rename ρ = value

/-- Whether a heap knows of everything that is in it. -/
structure Settled (heap : Heap) : Prop where
  births : 0 < heap.births
  tables : ∀ (id : Nat) (entries : ValueEntries), heap.tables[id]? = some entries →
    ∀ entry ∈ entries, heap.Knows entry.1 ∧ heap.Knows entry.2
  views : ∀ entry ∈ heap.views, entry.1 < heap.births ∧ entry.2 < heap.tables.size
  losses : ∀ entry ∈ heap.losses, entry.1 < heap.births ∧ ∀ item ∈ entry.2, heap.Knows item
  stores : ∀ (id : Nat) (store : Store), heap.stores[id]? = some store →
    store.table < heap.tables.size
  scopes : ∀ (id : Nat) (scope : Scope), heap.scopes[id]? = some scope →
    (match scope.vars with
      | .table table => table < heap.tables.size
      | .inside holder => heap.Knows holder
      | .absent given => heap.Knows given) ∧
    ∀ outer ∈ scope.outer, outer < heap.scopes.size

namespace Settled

variable {heap : Heap} {ρ : Renaming}

theorem map_eq_of_forall {α : Type} {items : List α} {f : α → α}
    (same : ∀ item ∈ items, f item = item) :
    items.map f = items := by
  rw [List.map_congr_left same, List.map_id']

theorem renameEntries_eq
    {entries : ValueEntries} (known : ∀ entry ∈ entries, heap.Knows entry.1 ∧ heap.Knows entry.2)
    (keeps : ρ.Keeps heap) :
    entries.map (Value.renameEntry ρ) = entries :=
  map_eq_of_forall fun entry member =>
    Prod.ext ((Value.renameEntry_fst ρ entry).trans ((known entry member).1 ρ keeps))
      ((Value.renameEntry_snd ρ entry).trans ((known entry member).2 ρ keeps))

theorem unlost (settled : heap.Settled) {birth : Nat} (fresh : heap.births ≤ birth) :
    heap.left? birth = none := by
  cases isLeft : heap.left? birth with
  | none => rfl
  | some left => exact absurd (settled.losses _ (mem_losses isLeft)).1 (Nat.not_lt.mpr fresh)

end Settled

/-- Whether a renaming changes nothing in a heap. -/
structure Fixed (ρ : Renaming) (heap : Heap) : Prop where
  scopeNumbers : ∀ number < heap.scopes.size, ρ.scopes number = number
  tableNumbers : ∀ number < heap.tables.size, ρ.tables number = number
  tables : ∀ (id : Nat) (entries : ValueEntries), heap.tables[id]? = some entries →
    entries.map (Value.renameEntry ρ) = entries
  views : ∀ entry ∈ heap.views, ρ.births entry.1 = entry.1 ∧ ρ.tables entry.2 = entry.2
  losses : ∀ entry ∈ heap.losses,
    ρ.births entry.1 = entry.1 ∧ entry.2.map (Value.rename ρ) = entry.2
  stores : ∀ (id : Nat) (store : Store), heap.stores[id]? = some store →
    ρ.tables store.table = store.table
  scopes : ∀ (id : Nat) (scope : Scope), heap.scopes[id]? = some scope → scope.rename ρ = scope

variable {heap : Heap} {ρ : Renaming}

/-- A renaming that keeps the numbers that a heap has given out changes nothing in it. -/
theorem Settled.fixed (settled : heap.Settled) (keeps : ρ.Keeps heap) : heap.Fixed ρ where
  scopeNumbers := keeps.scopes
  tableNumbers := keeps.tables
  tables id entries isTable := Settled.renameEntries_eq (settled.tables id entries isTable) keeps
  views entry member := by
    obtain ⟨birth, table⟩ := settled.views entry member
    exact ⟨keeps.births _ birth, keeps.tables _ table⟩
  losses entry member := by
    obtain ⟨birth, known⟩ := settled.losses entry member
    exact ⟨keeps.births _ birth,
      Settled.map_eq_of_forall fun item isItem => known item isItem _ keeps⟩
  stores id store isStore := keeps.tables _ (settled.stores id store isStore)
  scopes id scope isScope := by
    obtain ⟨vars, outer⟩ := scope
    obtain ⟨varsKnown, outerKnown⟩ := settled.scopes id _ isScope
    have sameOuter : outer.map ρ.scopes = outer :=
      Settled.map_eq_of_forall fun each member => keeps.scopes _ (outerKnown each member)
    have sameVars : vars.rename ρ = vars := by
      cases vars with
      | table table => rw [Variables.rename, keeps.tables table varsKnown]
      | inside holder => rw [Variables.rename, varsKnown _ keeps]
      | absent given => rw [Variables.rename, varsKnown _ keeps]
    rw [Scope.rename, sameVars, sameOuter]

/-- A heap in which a renaming changes nothing is like one that has more scopes and
tables. -/
theorem Fixed.like
    {pairing : Pairing} {left right : Heap} (fixed : left.Fixed pairing.numbers)
    (tight : pairing.Tight) (together : ¬ pairing.apart) (owned : pairing.ownScopes = 0)
    (tables : ∀ id < left.tables.size, right.tables[id]? = left.tables[id]?)
    (scopes : ∀ id < left.scopes.size, right.scopes[id]? = left.scopes[id]?)
    (views : right.views = left.views) (losses : right.losses = left.losses)
    (stores : right.stores = left.stores) (evaluators : right.evaluators = left.evaluators)
    (nextBirth : ∀ further, pairing.numbers.births (left.births + further) =
      right.births + further)
    (nextScope : ∀ further, pairing.numbers.scopes (left.scopes.size + further) =
      right.scopes.size + further)
    (nextTable : ∀ further, pairing.numbers.tables (left.tables.size + further) =
      right.tables.size + further) :
    left.Like pairing right where
  tables id _ := by
    by_cases inside : id < left.tables.size
    · rw [fixed.tableNumbers id inside, tables id inside]
      cases held : left.tables[id]? with
      | none => rfl
      | some entries => rw [Option.map_some, fixed.tables id entries held]
    · obtain ⟨further, rfl⟩ := Nat.exists_eq_add_of_le (Nat.le_of_not_lt inside)
      rw [nextTable, Array.getElem?_eq_none (Nat.le_add_right ..),
        Array.getElem?_eq_none (Nat.le_add_right ..)]
      rfl
  asides id entries others isAside := by
    rw [tight id] at isAside
    cases isAside
  views := by
    rw [views]
    exact (Settled.map_eq_of_forall fun entry member =>
      Prod.ext (fixed.views entry member).1 (fixed.views entry member).2).symm
  losses := by
    rw [losses]
    exact (Settled.map_eq_of_forall fun entry member =>
      Prod.ext (fixed.losses entry member).1 (fixed.losses entry member).2).symm
  stores := by
    refine Array.ext_getElem? fun id => ?_
    rw [stores, Array.getElem?_map]
    cases held : left.stores[id]? with
    | none => rfl
    | some store => rw [Option.map_some, Store.renumber, fixed.stores id store held]
  scopes id _ := by
    by_cases inside : id < left.scopes.size
    · rw [fixed.scopeNumbers id inside, scopes id inside]
      cases held : left.scopes[id]? with
      | none => rfl
      | some scope => rw [Option.map_some, tight.unbacked.scope_eq, fixed.scopes id scope held]
    · obtain ⟨further, rfl⟩ := Nat.exists_eq_add_of_le (Nat.le_of_not_lt inside)
      rw [nextScope, Array.getElem?_eq_none (Nat.le_add_right ..),
        Array.getElem?_eq_none (Nat.le_add_right ..)]
      rfl
  closed _ inner _ _ := tight.unbacked.closed inner
  backed id backing isBehind := by
    rw [tight.unbacked id] at isBehind
    cases isBehind
  backedOnly id backing _ _ isBehind := by
    rw [tight.unbacked id] at isBehind
    cases isBehind
  evaluatorCount := by rw [evaluators]
  configs id := .inl (by rw [Heap.config, Heap.config, evaluators])
  hostDepths id := by
    rw [Heap.hostDepth, Heap.hostDepth, evaluators]
    exact pairing.levels_refl _
  nextBirth := nextBirth
  nextScope := nextScope
  nextTable := nextTable
  storesKept _ store _ := tight store.table
  viewsKept entry _ := tight entry.2
  scopesKept _ table _ _ _ := tight table
  scopeCount := by rw [owned]; exact Nat.zero_le _
  apart isApart := absurd isApart together

/-- Two runs can start from a heap with other numbers to give out. -/
theorem Settled.like
    (settled : heap.Settled) {pairing : Pairing} (keeps : pairing.numbers.Keeps heap)
    (tight : pairing.Tight) (together : ¬ pairing.apart) (owned : pairing.ownScopes = 0)
    (evaluators : Array EvaluatorState) {next later : Nat}
    (births : ∀ further, pairing.numbers.births (next + further) = later + further)
    (scopes : ∀ further, pairing.numbers.scopes (heap.scopes.size + further) =
      heap.scopes.size + further)
    (tables : ∀ further, pairing.numbers.tables (heap.tables.size + further) =
      heap.tables.size + further) :
    Like pairing { heap with births := next, evaluators }
      { heap with births := later, evaluators } :=
  have fixed : Fixed pairing.numbers { heap with births := next, evaluators } :=
    { settled.fixed keeps with }
  fixed.like tight together owned (fun _ _ => rfl) (fun _ _ => rfl) rfl rfl rfl rfl births scopes
    tables

end Heap

/-! ## Telling apart under other numbers -/

namespace Value

variable {ρ : Renaming}

theorem numbered_rename
    {birth next ahead : Nat}
    (moved : ∀ number, next ≤ number → number < (numbered birth next).2 →
      ρ.births number = number + ahead) :
    numbered (ρ.births birth) (next + ahead) =
      (ρ.births (numbered birth next).1, (numbered birth next).2 + ahead) := by
  by_cases unnumbered : birth = 0
  · subst unnumbered
    have here := moved next (Nat.le_refl _) (Nat.lt_succ_self _)
    simp only [numbered, ρ.births_zero, if_pos, here, Prod.mk.injEq, true_and]
    omega
  · have numberedToo : ρ.births birth ≠ 0 :=
      fun zero => unnumbered ((births_eq_zero ρ birth).mp zero)
    simp only [numbered, if_neg unnumbered, if_neg numberedToo]

theorem numbered_le (birth next : Nat) : next ≤ (numbered birth next).2 := by
  unfold numbered
  split
  · exact Nat.le_succ next
  · exact Nat.le_refl next

mutual

theorem tellApart_le (next : Nat) (value : Value) : next ≤ (tellApart next value).2 := by
  cases value with
  | list items birth =>
      exact Nat.le_trans (tellItemsApart_le next items) (numbered_le birth _)
  | vector items birth =>
      exact Nat.le_trans (tellItemsApart_le next items) (numbered_le birth _)
  | map entries birth =>
      exact Nat.le_trans (tellEntriesApart_le next entries) (numbered_le birth _)
  | tuple items => exact tellItemsApart_le next items
  | quoted form => exact tellApart_le next form
  | float number birth =>
      cases number with
      | nan => exact numbered_le birth next
      | _ => exact Nat.le_refl next
  | _ => exact Nat.le_refl next

theorem tellItemsApart_le (next : Nat) (items : List Value) :
    next ≤ (tellItemsApart next items).2 := by
  cases items with
  | nil => exact Nat.le_refl next
  | cons item rest =>
      exact Nat.le_trans (tellApart_le next item) (tellItemsApart_le _ rest)

theorem tellEntriesApart_le (next : Nat) (entries : List (Value × Value)) :
    next ≤ (tellEntriesApart next entries).2 := by
  cases entries with
  | nil => exact Nat.le_refl next
  | cons entry rest =>
      exact Nat.le_trans (tellEntryApart_le next entry) (tellEntriesApart_le _ rest)

theorem tellEntryApart_le (next : Nat) (entry : Value × Value) :
    next ≤ (tellEntryApart next entry).2 := by
  cases entry with
  | mk key value =>
      exact Nat.le_trans (tellApart_le next key) (tellApart_le _ value)

end

/-- Whether the numbers of a range are further on by some count. -/
def Moved (ρ : Renaming) (ahead first last : Nat) : Prop :=
  ∀ number, first ≤ number → number < last → ρ.births number = number + ahead

theorem Moved.mono
    {ahead first last inner outer : Nat} (moved : Moved ρ ahead first last)
    (from_le : first ≤ inner) (le_to : outer ≤ last) :
    Moved ρ ahead inner outer :=
  fun number above below =>
    moved number (Nat.le_trans from_le above) (Nat.lt_of_lt_of_le below le_to)

mutual

/-- A run that is further on tells the same tree apart. -/
theorem tellApart_rename
    (next ahead : Nat) (value : Value) (moved : Moved ρ ahead next (tellApart next value).2) :
    tellApart (next + ahead) (value.rename ρ) =
      ((tellApart next value).1.rename ρ, (tellApart next value).2 + ahead) := by
  cases value with
  | list items birth =>
      have items := tellItemsApart_rename next ahead items
        (moved.mono (Nat.le_refl _) (numbered_le birth _))
      have own := numbered_rename (moved.mono (tellItemsApart_le next _) (Nat.le_refl _))
      rw [rename_list]
      simp only [tellApart, items, own, rename_list]
  | vector items birth =>
      have items := tellItemsApart_rename next ahead items
        (moved.mono (Nat.le_refl _) (numbered_le birth _))
      have own := numbered_rename (moved.mono (tellItemsApart_le next _) (Nat.le_refl _))
      rw [rename_vector]
      simp only [tellApart, items, own, rename_vector]
  | map entries birth =>
      have entries := tellEntriesApart_rename next ahead entries
        (moved.mono (Nat.le_refl _) (numbered_le birth _))
      have own := numbered_rename (moved.mono (tellEntriesApart_le next _) (Nat.le_refl _))
      rw [rename_map]
      simp only [tellApart, entries, own, rename_map]
  | tuple items =>
      have items := tellItemsApart_rename next ahead items moved
      rw [rename_tuple]
      simp only [tellApart, items, rename_tuple]
  | quoted form =>
      have form := tellApart_rename next ahead form moved
      rw [rename_quoted]
      simp only [tellApart, form, rename_quoted]
  | float number birth =>
      cases number with
      | nan =>
          have own := numbered_rename moved
          rw [rename_float]
          simp only [tellApart, own, rename_float]
      | _ => rfl
  | closure id name params rest body inside owner => simp only [rename_closure, tellApart]
  | event id origin members => simp only [rename_event, tellApart]
  | _ => rfl

theorem tellItemsApart_rename
    (next ahead : Nat) (items : List Value)
    (moved : Moved ρ ahead next (tellItemsApart next items).2) :
    tellItemsApart (next + ahead) (items.map (rename ρ)) =
      ((tellItemsApart next items).1.map (rename ρ),
        (tellItemsApart next items).2 + ahead) := by
  cases items with
  | nil => rfl
  | cons item rest =>
      have first := tellApart_rename next ahead item
        (moved.mono (Nat.le_refl _) (tellItemsApart_le _ rest))
      have others := tellItemsApart_rename (tellApart next item).2 ahead rest
        (moved.mono (tellApart_le next item) (Nat.le_refl _))
      rw [List.map_cons]
      simp only [tellItemsApart, first, others, List.map_cons]

theorem tellEntriesApart_rename
    (next ahead : Nat) (entries : List (Value × Value))
    (moved : Moved ρ ahead next (tellEntriesApart next entries).2) :
    tellEntriesApart (next + ahead) (entries.map (renameEntry ρ)) =
      ((tellEntriesApart next entries).1.map (renameEntry ρ),
        (tellEntriesApart next entries).2 + ahead) := by
  cases entries with
  | nil => rfl
  | cons entry rest =>
      have first := tellEntryApart_rename next ahead entry
        (moved.mono (Nat.le_refl _) (tellEntriesApart_le _ rest))
      have others := tellEntriesApart_rename (tellEntryApart next entry).2 ahead rest
        (moved.mono (tellEntryApart_le next entry) (Nat.le_refl _))
      rw [List.map_cons]
      simp only [tellEntriesApart, first, others, List.map_cons]

theorem tellEntryApart_rename
    (next ahead : Nat) (entry : Value × Value)
    (moved : Moved ρ ahead next (tellEntryApart next entry).2) :
    tellEntryApart (next + ahead) (renameEntry ρ entry) =
      (renameEntry ρ (tellEntryApart next entry).1, (tellEntryApart next entry).2 + ahead) := by
  cases entry with
  | mk key value =>
      have first := tellApart_rename next ahead key
        (moved.mono (Nat.le_refl _) (tellApart_le _ value))
      have second := tellApart_rename (tellApart next key).2 ahead value
        (moved.mono (tellApart_le next key) (Nat.le_refl _))
      rw [renameEntry_mk]
      simp only [tellEntryApart, first, second, renameEntry_mk]

end

/-! ## Trees that are read -/

mutual

/-- A tree as it is read has no numbers. -/
theorem rename_of_isTree (ρ : Renaming) (value : Value) (isTree : IsTree value) :
    value.rename ρ = value := by
  cases value with
  | list items birth =>
      obtain ⟨rfl, areTrees⟩ := isTree
      rw [rename_list, ρ.births_zero, map_rename_of_allTrees ρ items areTrees]
  | vector items birth =>
      obtain ⟨rfl, areTrees⟩ := isTree
      rw [rename_vector, ρ.births_zero, map_rename_of_allTrees ρ items areTrees]
  | quoted form => rw [rename_quoted, rename_of_isTree ρ form isTree]
  | float number birth =>
      obtain rfl := isTree
      rw [rename_float, ρ.births_zero]
  | symbol _ | int _ | str _ => rfl
  | _ => exact isTree.elim

theorem map_rename_of_allTrees (ρ : Renaming) (items : List Value) (areTrees : AllTrees items) :
    items.map (rename ρ) = items := by
  cases items with
  | nil => rfl
  | cons item rest =>
      rw [List.map_cons, rename_of_isTree ρ item areTrees.1,
        map_rename_of_allTrees ρ rest areTrees.2]

end

end Value

end CueScript
