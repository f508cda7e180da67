import CueScript.Proofs.Twin.Identity

/-!
# Variables of scopes

A run sets variables only in scopes that it has opened itself, as long as it reads
members of events only.  Scopes, closures and evaluators are then no values whose
operations could be used, and no map shows the table of a store or a scope.

The frame is read off a run that is compared with itself, the variables of all scopes
that are there at its beginning being set aside.
-/

namespace CueScript

namespace Heap

theorem apart_empty : Heap.empty.Apart where
  views := rfl
  unnumbered := rfl
  stores _ _ isStore := nomatch isStore
  owners _ _ _ _ isStore := nomatch isStore
  scopes _ _ isScope := nomatch isScope

/-- Whether a table has the entries of a store. -/
def isOfStore (heap : Heap) (table : Nat) : Bool :=
  heap.stores.any fun store => store.table == table

theorem isOfStore_iff {heap : Heap} {table : Nat} :
    heap.isOfStore table = true ↔
      ∃ (id : Nat) (store : Store), heap.stores[id]? = some store ∧ store.table = table := by
  rw [isOfStore, Array.any_eq_true]
  constructor
  · rintro ⟨id, below, same⟩
    exact ⟨id, heap.stores[id], Array.getElem?_eq_getElem below, eq_of_beq same⟩
  · rintro ⟨id, store, isStore, rfl⟩
    obtain ⟨below, rfl⟩ := Array.getElem?_eq_some_iff.mp isStore
    exact ⟨id, below, beq_self_eq_true _⟩

/-- A run beside itself: it keeps apart what is apart, and all tables that are there and
that no store has are set aside. -/
def besideItself (heap : Heap) (alarm : Fault) : Pairing where
  numbers := .identity
  slack := False
  apart := True
  aside table :=
    if table < heap.tables.size ∧ heap.isOfStore table = false then
      some (heap.table table, heap.table table)
    else
      none
  spoken _ := True
  alike _ entries others isAside _ _ name _ := by
    have same : others = entries := by
      split at isAside
      · cases isAside
        rfl
      · cases isAside
    rw [same]
    cases ValueEntries.get? entries (.str name) with
    | error failure => rfl
    | ok found => cases found <;> simp [Except.map]
  ownScopes := heap.scopes.size
  alarm := alarm

theorem Apart.like_itself {heap : Heap} (apart : heap.Apart) (alarm : Fault) :
    heap.Like (heap.besideItself alarm) heap := by
  refine like_equip rfl (fun _ => rfl) ?_ rfl (fun _ => .inl rfl) (fun _ => .inl rfl) ?_ ?_ ?_
    (Nat.le_refl _) fun _ => apart
  · intro id entries others isAside
    simp only [besideItself] at isAside
    split at isAside
    · rename_i isFree
      cases isAside
      exact ⟨getElem?_tables isFree.1, getElem?_tables isFree.1⟩
    · cases isAside
  · intro id store isStore
    have isOwned : heap.isOfStore store.table = true := isOfStore_iff.mpr ⟨id, store, isStore, rfl⟩
    exact if_neg fun isFree => Bool.false_ne_true (isFree.2.symm.trans isOwned)
  · intro entry member
    rw [apart.views] at member
    cases member
  · intro id table outer isScope notBelow
    have below := (Array.getElem?_eq_some_iff.mp isScope).1
    exact absurd below (Nat.not_lt.mpr notBelow)

/-! ## What a run keeps -/

/-- Whether a heap has become another in which what was there has not changed, other than
in stores and in lists that have lost items, and in which everything is apart. -/
structure KeepsScopes (before after : Heap) : Prop where
  apart : after.Apart
  stores : after.stores = before.stores
  evaluators : after.evaluators = before.evaluators
  scopes : ∀ (id : Nat) (scope : Scope),
    before.scopes[id]? = some scope → after.scopes[id]? = some scope
  tables : ∀ table < before.tables.size,
    (∀ (id : Nat) (store : Store), before.stores[id]? = some store → store.table ≠ table) →
      after.tables[table]? = before.tables[table]?
  scopeCount : before.scopes.size ≤ after.scopes.size
  tableCount : before.tables.size ≤ after.tables.size
  births : before.births ≤ after.births

namespace KeepsScopes

theorem refl {heap : Heap} (apart : heap.Apart) : heap.KeepsScopes heap where
  apart := apart
  stores := rfl
  evaluators := rfl
  scopes _ _ isScope := isScope
  tables _ _ _ := rfl
  scopeCount := Nat.le_refl _
  tableCount := Nat.le_refl _
  births := Nat.le_refl _

theorem trans
    {first second third : Heap} (former : first.KeepsScopes second)
    (latter : second.KeepsScopes third) :
    first.KeepsScopes third where
  apart := latter.apart
  stores := latter.stores.trans former.stores
  evaluators := latter.evaluators.trans former.evaluators
  scopes id scope isScope := latter.scopes id scope (former.scopes id scope isScope)
  tables table below unowned := by
    have later := latter.tables table (Nat.lt_of_lt_of_le below former.tableCount)
    rw [former.stores] at later
    exact (later unowned).trans (former.tables table below unowned)
  scopeCount := Nat.le_trans former.scopeCount latter.scopeCount
  tableCount := Nat.le_trans former.tableCount latter.tableCount
  births := Nat.le_trans former.births latter.births

/-- The variables of a scope are in a table, which is as it was. -/
theorem variablesKept
    {before after : Heap} (keeps : before.KeepsScopes after) (apart : before.Apart)
    {id : Nat} {scope : Scope} (isScope : before.scopes[id]? = some scope) :
    ∃ table, scope.vars = .table table ∧ after.table table = before.table table := by
  obtain ⟨table, isTable, below, unowned⟩ := apart.scopes id scope isScope
  exact ⟨table, isTable, by rw [Heap.table, Heap.table, keeps.tables table below unowned]⟩

end KeepsScopes

end Heap

namespace Eval

/-- A piece of work that reads members of events only leaves the variables of all scopes
that were there as they were, whether it gives a value or a fault. -/
theorem NeverMeets.keepsScopes
    {task : Task} {heap : Heap} (never : NeverMeets leavesEvents task heap)
    (apart : heap.Apart) :
    heap.KeepsScopes ((perform task).perform heap).2 := by
  have keeps : (perform task).Keeps .anything (Value.Within .anything) heap :=
    perform_keeps (Bounds.lists_anything 0) (fun _ => trivial) (fun _ => trivial) trivial
      (Bounds.heapWithin_anything heap) (Bounds.taskWithin_anything task)
  obtain ⟨alarm, quiet⟩ := Regime.exists_alarm ((perform task).perform heap)
  have covered := @Pairing.coveredBy_leavesEvents (heap.besideItself alarm) (fun _ => trivial)
    fun _ => rfl
  obtain ⟨like, -⟩ := never.like covered id (task_twin_itself rfl task)
    (apart.like_itself alarm) quiet
  have extend := keeps.becomes.extend
  refine ⟨like.apart trivial, extend.stores, keeps.evaluators, extend.scopes, ?_,
    extend.scopeCount, extend.tableCount, extend.births⟩
  intro table below unowned
  have isFree : heap.isOfStore table = false := by
    refine Bool.eq_false_iff.mpr fun isOwned => ?_
    obtain ⟨id, store, isStore, same⟩ := Heap.isOfStore_iff.mp isOwned
    exact unowned id store isStore same
  have isAside : (heap.besideItself alarm).aside table =
      some (heap.table table, heap.table table) :=
    if_pos ⟨below, isFree⟩
  have before := ((apart.like_itself alarm).asides table _ _ isAside).1
  have after := (like.asides table _ _ isAside).1
  rw [before, after]

end Eval

end CueScript
