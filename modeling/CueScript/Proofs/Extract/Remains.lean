import CueScript.Proofs.Extract.Further

/-!
# What trees leave behind

Trees of symbols leave scopes, tables and numbers behind which nothing leads to.  What is
evaluated after them ends as where they have never been evaluated.
-/

namespace CueScript

namespace Heap

/-- A scope is opened where a renaming changes nothing. -/
theorem Fixed.opened
    {heap : Heap} {ρ : Renaming} (fixed : heap.Fixed ρ)
    (scope : ρ.scopes heap.scopes.size = heap.scopes.size)
    (table : ρ.tables heap.tables.size = heap.tables.size) {vars : ValueEntries}
    (same : vars.map (Value.renameEntry ρ) = vars) {outer : List Nat}
    (around : outer.map ρ.scopes = outer) :
    (heap.opened vars outer).Fixed ρ := by
  have tableCount : (heap.opened vars outer).tables.size = heap.tables.size + 1 :=
    Array.size_push ..
  have scopeCount : (heap.opened vars outer).scopes.size = heap.scopes.size + 1 :=
    Array.size_push ..
  constructor
  · intro number below
    rcases Nat.lt_or_eq_of_le (Nat.le_of_lt_succ (scopeCount ▸ below)) with old | rfl
    · exact fixed.scopeNumbers number old
    · exact scope
  · intro number below
    rcases Nat.lt_or_eq_of_le (Nat.le_of_lt_succ (tableCount ▸ below)) with old | rfl
    · exact fixed.tableNumbers number old
    · exact table
  · intro id entries isTable
    change (heap.tables.push vars)[id]? = some entries at isTable
    rw [Array.getElem?_push] at isTable
    split at isTable
    · cases isTable
      exact same
    · exact fixed.tables id entries isTable
  · exact fixed.views
  · exact fixed.losses
  · exact fixed.stores
  · intro id held isScope
    change (heap.scopes.push _)[id]? = some held at isScope
    rw [Array.getElem?_push] at isScope
    split at isScope
    · cases isScope
      rw [Scope.rename, Variables.rename, table, around]
    · exact fixed.scopes id held isScope

/-- What is evaluated after some trees ends as where only their values are there, apart from
the numbers of scopes that closures were made in. -/
theorem Grows.solve_eq
    {heap later : Heap} {params vars : ValueEntries} {root : Nat} (settled : heap.Settled)
    (grows : (heap.bound params vars root).Grows later) (lossless : later.losses = heap.losses)
    (inside : root < heap.scopes.size)
    (paramsKnown : ∀ entry ∈ params, heap.Knows entry.1 ∧ heap.Knows entry.2)
    (plain : Value.EntriesWithin .withoutClosures vars) {body : Value} (known : heap.Knows body)
    (frames owner : Nat) (depth : Int) :
    let task := Task.evaluate owner (heap.scopes.size + 1) body depth
    let bare := { heap with births := later.births }.bound params vars root
    ∃ τ : Renaming, τ.Keeps { heap with births := later.births } ∧
      ((Eval.solve frames task).perform later).1 =
          ((Eval.solve frames task).perform bare).1.map (Value.rename τ) ∧
        ∀ id, ((Eval.solve frames task).perform later).2.entries id =
          (((Eval.solve frames task).perform bare).2.entries id).map (Value.renameEntry τ) := by
  intro task bare
  have scopeCount : bare.scopes.size = heap.scopes.size + 2 := bound_scopeCount
  have tableCount : bare.tables.size = heap.tables.size + 2 := bound_tableCount
  have laterScopes := grows.scopeCount
  have laterTables := grows.tableCount
  rw [bound_scopeCount] at laterScopes
  rw [bound_tableCount] at laterTables
  let τ := bare.laterNumbers later
  have scopes (number : Nat) (below : number < heap.scopes.size + 2) :
      τ.scopes number = number :=
    laterNumbers_keeps.scopes number (scopeCount ▸ below)
  have tables (number : Nat) (below : number < heap.tables.size + 2) :
      τ.tables number = number :=
    laterNumbers_keeps.tables number (size_withContents.trans tableCount ▸ below)
  have keeps : τ.Keeps { heap with births := later.births } :=
    ⟨fun number _ => laterNumbers_births number, fun number below => scopes number (by
      exact Nat.lt_add_right 2 below), fun number below => tables number (by
      exact Nat.lt_add_right 2 below)⟩
  have keepsHeap : τ.Keeps heap := ⟨fun number _ => laterNumbers_births number, keeps.scopes,
    keeps.tables⟩
  refine ⟨τ, keeps, ?_⟩
  have fixed : bare.Fixed τ := by
    have start : Fixed τ { heap with births := later.births } := { settled.fixed keepsHeap with }
    have outer : ({ heap with births := later.births }.opened params [root]).Fixed τ :=
      start.opened (scopes _ (by simp)) (tables _ (by simp))
        (Settled.renameEntries_eq paramsKnown keepsHeap) (by simp [scopes root (by omega)])
    refine outer.opened (scopes _ (by simp [opened])) (tables _ (by simp [opened]))
      ((Renaming.fixes_withoutClosures laterNumbers_births).map_renameEntry_eq vars plain) ?_
    simp [scopes root (by omega), scopes heap.scopes.size (by omega)]
  obtain ⟨alarm, quiet⟩ := Regime.exists_alarm ((Eval.solve frames task).perform bare)
  have tight : (bare.besideLater later alarm).Tight := fun _ => rfl
  have like : bare.Like (bare.besideLater later alarm) later :=
    fixed.like tight id rfl (fun id below => grows.tables id (by
        rw [bound_tableCount]
        exact tableCount ▸ below))
      (fun id below => (grows.scopes id (by
        rw [bound_scopeCount]
        exact scopeCount ▸ below)).trans (by simp only [bare, bound_scopes]))
      grows.views lossless grows.stores grows.evaluators (fun _ => laterNumbers_births _)
      (laterNumbers_nextScope (scopeCount ▸ laterScopes))
      (laterNumbers_nextTable (tableCount ▸ laterTables))
  have same : task.Twin (bare.besideLater later alarm) task := by
    have twin : Task.Twin (bare.besideLater later alarm) task
        (.evaluate owner (τ.scopes (heap.scopes.size + 1)) (body.rename τ) depth) :=
      .evaluate _ _ _ (Pairing.levels_refl _ depth)
    rw [scopes _ (by omega), known τ keepsHeap] at twin
    exact twin
  have ends := Eval.workers_twin (Pairing.coveredBy_never ⟨tight, id⟩ id) (.inl (Eq.refl frames))
    [] _ _ same _ _ like
  rw [Eval.watched_never] at ends
  obtain ⟨alike, outcome⟩ := ends.of_quiet id quiet
  exact ⟨outcome, alike.entries⟩

end Heap

end CueScript
