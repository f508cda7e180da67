import CueScript.Proofs.Twin.Evaluation
import CueScript.Proofs.Twin.Fixes

/-!
# Runs under the same numbers

A run can be compared with itself, or with another that begins with other evaluators.  No
number differs then, and heaps that are alike are the same but for what is set aside and
for the evaluators.
-/

namespace CueScript

/-- Runs that read members of events only do nothing that their numbers, levels or tables
could tell. -/
theorem Pairing.coveredBy_leavesEvents
    {pairing : Pairing} (spoken : ∀ name, pairing.spoken name) (unbacked : pairing.Unbacked) :
    pairing.CoveredBy leavesEvents := by
  intro task around heap quiet
  cases task with
  | evaluate owner inside form depth =>
      exact ⟨unbacked.meets inside, fun name _ => .inr ⟨name, rfl, spoken name⟩⟩
  | read value name =>
      cases value with
      | event id origin members => exact trivial
      | _ => cases quiet
  | enter closure args depth => exact unbacked.permits_enter closure args depth
  | call function args =>
      cases function with
      | member receiver operation =>
          cases receiver with
          | closure id name params rest body inside owner => cases quiet
          | scope id => cases quiet
          | evaluator id => cases quiet
          | _ => exact trivial
      | _ => exact trivial

/-- The renaming that changes nothing. -/
def Renaming.identity : Renaming where
  births number := number
  scopes number := number
  tables number := number
  births_injective := Function.injective_id
  births_zero := rfl
  scopes_injective := Function.injective_id
  tables_injective := Function.injective_id

@[simp]
theorem Renaming.identity_births (number : Nat) : Renaming.identity.births number = number := rfl

@[simp]
theorem Renaming.identity_scopes (number : Nat) : Renaming.identity.scopes number = number := rfl

@[simp]
theorem Renaming.identity_tables (number : Nat) : Renaming.identity.tables number = number := rfl

theorem Renaming.identity_fixes (bounds : Bounds) : Renaming.identity.Fixes bounds :=
  ⟨fun _ => rfl, fun _ _ _ => rfl⟩

namespace Value

@[simp]
theorem rename_identity (value : Value) : value.rename .identity = value :=
  (Renaming.identity_fixes _).rename_eq value (Bounds.within_anything value)

@[simp]
theorem map_renameEntry_identity (entries : List (Value × Value)) :
    entries.map (renameEntry .identity) = entries :=
  (Renaming.identity_fixes _).map_renameEntry_eq entries (Bounds.entriesWithin_anything entries)

@[simp]
theorem map_rename_identity (items : List Value) : items.map (rename .identity) = items :=
  (Renaming.identity_fixes _).map_rename_eq items (Bounds.allWithin_anything items)

end Value

@[simp]
theorem Store.renumber_identity (store : Store) : store.renumber .identity = store := rfl

@[simp]
theorem Scope.rename_identity (scope : Scope) : scope.rename .identity = scope := by
  obtain ⟨vars, outer⟩ := scope
  have sameOuter : outer.map Renaming.identity.scopes = outer := List.map_id' outer
  cases vars <;> simp [Scope.rename, Variables.rename, sameOuter]

namespace Heap

/-- A heap is like itself with other evaluators. -/
theorem like_equip
    {pairing : Pairing} (same : pairing.numbers = .identity) (unbacked : pairing.Unbacked)
    {heap : Heap} {evaluators : Array EvaluatorState}
    (asides : ∀ id entries others, pairing.aside id = some (entries, others) →
      heap.tables[id]? = some entries ∧ heap.tables[id]? = some others)
    (count : evaluators.size = heap.evaluators.size)
    (configs : ∀ id, pairing.Settings (heap.config id) ((heap.equip evaluators).config id))
    (hostDepths : ∀ id,
      pairing.Levels (heap.hostDepth id) ((heap.equip evaluators).hostDepth id))
    (storesKept : ∀ (id : Nat) (store : Store), heap.stores[id]? = some store →
      pairing.aside store.table = none)
    (viewsKept : ∀ entry ∈ heap.views, pairing.aside entry.2 = none)
    (scopesKept : ∀ id table outer, heap.scopes[id]? = some ⟨.table table, outer⟩ →
      pairing.ownScopes ≤ id → pairing.aside table = none)
    (scopeCount : pairing.ownScopes ≤ heap.scopes.size)
    (apart : pairing.apart → heap.Apart) :
    heap.Like pairing (heap.equip evaluators) where
  tables id _ := by
    change heap.tables[pairing.numbers.tables id]? = _
    rw [same, Renaming.identity_tables]
    cases heap.tables[id]? <;> simp
  asides id entries others isAside := by
    rw [same]
    exact asides id entries others isAside
  views := by
    rw [same]
    exact (List.map_id heap.views).symm
  losses := by
    have identity : (fun entry : Nat × List Value =>
        (Renaming.identity.births entry.1, entry.2.map (Value.rename .identity))) = id := by
      funext entry
      simp
    rw [same]
    exact (identity ▸ List.map_id heap.losses).symm
  stores := by
    have identity : Store.renumber .identity = id := rfl
    rw [same, identity, Array.map_id]
    rfl
  scopes id _ := by
    change heap.scopes[pairing.numbers.scopes id]? = _
    rw [unbacked.scope_eq, same, Renaming.identity_scopes]
    cases heap.scopes[id]? <;> simp
  closed _ inner _ _ := unbacked.closed inner
  backed id backing isBehind := by
    rw [unbacked id] at isBehind
    cases isBehind
  backedOnly id backing _ _ isBehind := by
    rw [unbacked id] at isBehind
    cases isBehind
  evaluatorCount := count
  configs := configs
  hostDepths := hostDepths
  nextBirth _ := by rw [same]; rfl
  nextScope _ := by rw [same]; rfl
  nextTable _ := by rw [same]; rfl
  storesKept := storesKept
  viewsKept := viewsKept
  scopesKept := scopesKept
  scopeCount := scopeCount
  apart := apart

/-- Where no number differs and nothing is set aside, only evaluators do. -/
theorem Like.eq_equip
    {pairing : Pairing} (same : pairing.numbers = .identity) (tight : pairing.Tight)
    {left right : Heap} (like : left.Like pairing right) :
    left = right.equip left.evaluators := by
  have tables : right.tables = left.tables := by
    refine Array.ext_getElem? fun id => ?_
    have found := like.tables id (tight id)
    rw [same, Renaming.identity_tables] at found
    rw [found]
    cases left.tables[id]? <;> simp
  have views : right.views = left.views := by
    have found := like.views
    rw [same] at found
    rw [found]
    exact List.map_id left.views
  have losses : right.losses = left.losses := by
    have identity : (fun entry : Nat × List Value =>
        (Renaming.identity.births entry.1, entry.2.map (Value.rename .identity))) = id := by
      funext entry
      simp
    have found := like.losses
    rw [same, identity, List.map_id] at found
    exact found
  have stores : right.stores = left.stores := by
    have found := like.stores
    rw [same] at found
    rw [found]
    exact Array.map_id left.stores
  have scopes : right.scopes = left.scopes := by
    refine Array.ext_getElem? fun id => ?_
    have found := like.scopes id (tight.unbacked.meets id)
    rw [tight.unbacked.scope_eq, same, Renaming.identity_scopes] at found
    rw [found]
    cases left.scopes[id]? <;> simp
  have births : right.births = left.births := by
    have found := like.nextBirth 0
    rw [same] at found
    exact found.symm
  obtain ⟨_, _, _, _, _, _, _⟩ := left
  obtain ⟨_, _, _, _, _, _, _⟩ := right
  simp only at tables views losses stores scopes births
  subst tables views losses stores scopes births
  rfl

end Heap

namespace Eval

/-- A piece of work is the same under the same numbers. -/
theorem task_twin_itself
    {pairing : Pairing} (same : pairing.numbers = .identity) (task : Task) :
    Task.Twin pairing task task := by
  cases task with
  | evaluate owner inside form depth =>
      have twin : Task.Twin pairing (.evaluate owner inside form depth) _ :=
        .evaluate owner inside form (pairing.levels_refl depth)
      simpa only [same, Value.rename_identity, Renaming.identity_scopes] using twin
  | read value name =>
      have twin : Task.Twin pairing (.read value name) _ := .read value name
      simpa only [same, Value.rename_identity] using twin
  | enter closure args depth =>
      have twin : Task.Twin pairing (.enter closure args depth) _ :=
        .enter closure args (pairing.levels_refl depth)
      simpa only [same, Value.rename_identity, Value.map_rename_identity] using twin
  | call function args =>
      have twin : Task.Twin pairing (.call function args) _ := .call function args
      simpa only [same, Value.rename_identity, Value.map_rename_identity] using twin

/-- A run that meets nothing a watch looks out for leaves a heap that is alike, if both
runs of a pairing are nested alike. -/
theorem NeverMeets.like
    {watch : Watch} {task twin : Task} {heap other : Heap} (never : NeverMeets watch task heap)
    {pairing : Pairing} (covered : pairing.CoveredBy watch) (straight : ¬ pairing.slack)
    (tasks : Task.Twin pairing task twin) (like : heap.Like pairing other)
    (quiet : ∀ after, (perform task).perform heap ≠ (.error pairing.alarm, after)) :
    ((perform task).perform heap).2.Like pairing ((perform twin).perform other).2 ∧
      ((perform twin).perform other).1 =
        ((perform task).perform heap).1.map (Value.rename pairing.numbers) := by
  have ends : TwinEnds pairing (Value.rename pairing.numbers)
      ((watched watch pairing.alarm frameLimit [] task).perform heap)
      ((solve frameLimit twin).perform other) :=
    workers_twin covered (.inl rfl) [] task twin tasks heap other like
  rw [never pairing.alarm] at ends
  exact ends.of_quiet straight quiet

end Eval

end CueScript
