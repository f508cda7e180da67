import CueScript.Proofs.Entries
import CueScript.Proofs.Run.Current
import CueScript.Proofs.Run.Within

/-!
# Heaps within bounds

A heap is within bounds if what can be reached in it from bounded values is bounded
again, and if whatever is made next is bounded, too.

`Heap.Extends` says what may become of a heap: new things are made and tables within the
bounds change, and nothing else.  Every operation on a heap that a run makes use of
keeps it within the bounds and extends it.

Evaluators are not among this.  `Heap.equip` gives a heap other evaluators; what is
looked up in a heap does not depend on them.
-/

namespace CueScript

/-- Whether the variables of a scope may be met. -/
def Variables.Within (bounds : Bounds) : Variables → Prop
  | .table id => bounds.tables id
  | .inside holder => holder.Within bounds
  | .absent given => given.Within bounds

namespace Heap

/-- A heap in which everything that can be reached is within bounds. -/
structure Within (bounds : Bounds) (heap : Heap) : Prop where
  tables : ∀ (id : Nat) (entries : ValueEntries), bounds.tables id →
    heap.tables[id]? = some entries → Value.EntriesWithin bounds entries
  stores : ∀ id store, bounds.stores id → heap.stores[id]? = some store →
    bounds.tables store.table
  scopes : ∀ id scope, bounds.scopes id → heap.scopes[id]? = some scope →
    scope.vars.Within bounds ∧ ∀ each ∈ scope.outer, bounds.scopes each
  views : ∀ entry ∈ heap.views, bounds.births entry.1 ↔ bounds.tables entry.2
  losses : ∀ birth left, bounds.births birth → heap.left? birth = some left →
    bounds.losable birth ∧ Value.AllWithin bounds left
  kept : ∀ birth left, bounds.births birth → heap.left? birth = some left →
    ∀ item ∈ left, bounds.contents birth item
  freshTables : ∀ id, heap.tables.size ≤ id → bounds.tables id
  freshScopes : ∀ id, heap.scopes.size ≤ id → bounds.scopes id
  freshBirths : ∀ birth, heap.births ≤ birth → bounds.births birth
  freshContents : ∀ birth item, heap.births ≤ birth → bounds.contents birth item

theorem within_empty
    (bounds : Bounds)
    (tables : ∀ id, bounds.tables id) (scopes : ∀ id, bounds.scopes id)
    (births : ∀ birth, bounds.births birth)
    (contents : ∀ birth item, bounds.contents birth item) :
    Heap.empty.Within bounds where
  tables _ _ _ isTable := nomatch isTable
  stores _ _ _ isStore := nomatch isStore
  scopes _ _ _ isScope := nomatch isScope
  views _ member := nomatch member
  losses _ _ _ isLeft := nomatch isLeft
  kept _ _ _ isLeft := nomatch isLeft
  freshTables id _ := tables id
  freshScopes id _ := scopes id
  freshBirths birth _ := births birth
  freshContents birth item _ := contents birth item

/-- What may become of a heap. -/
structure Extends (bounds : Bounds) (before after : Heap) : Prop where
  stores : after.stores = before.stores
  scopes : ∀ (id : Nat) (scope : Scope),
    before.scopes[id]? = some scope → after.scopes[id]? = some scope
  scopeCount : before.scopes.size ≤ after.scopes.size
  tables : ∀ (id : Nat), ¬ bounds.tables id → after.tables[id]? = before.tables[id]?
  tableCount : before.tables.size ≤ after.tables.size
  births : before.births ≤ after.births
  losses : ∀ birth, ¬ bounds.births birth → after.left? birth = before.left? birth
  views : ∀ birth, ¬ bounds.births birth → after.viewed? birth = before.viewed? birth
  keepsLosses : ∀ birth, (before.left? birth).isSome = true →
    (after.left? birth).isSome = true
  keepsViews : ∀ birth, (before.viewed? birth).isSome = true →
    (after.viewed? birth).isSome = true
  /-- Maps become views only by way of a store or a scope. -/
  sameViews : (∀ id, ¬ bounds.stores id) → ¬ bounds.escapes → after.views = before.views

variable {bounds : Bounds}

namespace Extends

theorem refl (heap : Heap) : Extends bounds heap heap where
  stores := rfl
  scopes _ _ found := found
  scopeCount := Nat.le_refl _
  tables _ _ := rfl
  tableCount := Nat.le_refl _
  births := Nat.le_refl _
  losses _ _ := rfl
  views _ _ := rfl
  keepsLosses _ isLost := isLost
  keepsViews _ isView := isView
  sameViews _ _ := rfl

/-- What a heap has become still knows of all losses and views. -/
theorem remembers {before after : Heap} (extend : Extends bounds before after) :
    after.Remembers before :=
  ⟨extend.keepsLosses, extend.keepsViews⟩

theorem trans
    {first second third : Heap}
    (former : Extends bounds first second)
    (latter : Extends bounds second third) :
    Extends bounds first third where
  stores := latter.stores.trans former.stores
  scopes id scope found := latter.scopes id scope (former.scopes id scope found)
  scopeCount := Nat.le_trans former.scopeCount latter.scopeCount
  tables id outside := (latter.tables id outside).trans (former.tables id outside)
  tableCount := Nat.le_trans former.tableCount latter.tableCount
  births := Nat.le_trans former.births latter.births
  losses birth outside := (latter.losses birth outside).trans (former.losses birth outside)
  views birth outside := (latter.views birth outside).trans (former.views birth outside)
  keepsLosses birth isLost := latter.keepsLosses birth (former.keepsLosses birth isLost)
  keepsViews birth isView := latter.keepsViews birth (former.keepsViews birth isView)
  sameViews noStores sealed :=
    (latter.sameViews noStores sealed).trans (former.sameViews noStores sealed)

end Extends

/-! ## What is looked up -/

theorem mem_views
    {heap : Heap} {birth table : Nat} (isView : heap.viewed? birth = some table) :
    (birth, table) ∈ heap.views :=
  Entries.mem_of_find? isView

theorem mem_losses
    {heap : Heap} {birth : Nat} {left : List Value} (isLeft : heap.left? birth = some left) :
    (birth, left) ∈ heap.losses :=
  Entries.mem_of_find? isLeft

namespace Within

variable {heap : Heap}

theorem table
    (within : heap.Within bounds) {id : Nat}
    (known : bounds.tables id) :
    Value.EntriesWithin bounds (heap.table id) := by
  unfold Heap.table
  cases found : heap.tables[id]? with
  | none => exact trivial
  | some entries => exact within.tables id entries known found

theorem viewed
    (within : heap.Within bounds) {birth table : Nat}
    (known : bounds.births birth)
    (isView : heap.viewed? birth = some table) :
    bounds.tables table := by
  exact (within.views _ (mem_views isView)).mp known

theorem holdings
    (within : heap.Within bounds) (budget : Nat) (path : List Nat) :
    (heap.holdings budget path).Within bounds := by
  induction budget generalizing path with
  | zero =>
      constructor
      · intro birth held _ isHeld
        cases isHeld
      · intro birth held _ isHeld
        cases isHeld
  | succ budget inductionHypothesis =>
      constructor
      · intro birth held known isHeld
        obtain ⟨left, isLeft, rfl⟩ := Option.map_eq_some_iff.mp isHeld
        have lists : bounds.Lists birth left := ⟨known, within.kept birth left known isLeft⟩
        exact ⟨lists.current _, Value.allWithin_current (inductionHypothesis path) left
          (within.losses birth left known isLeft).2⟩
      · intro birth held known isHeld
        obtain ⟨table, isView, rfl⟩ := Option.map_eq_some_iff.mp isHeld
        split
        · exact trivial
        · exact Value.entriesWithin_current (inductionHypothesis _) _
            (within.table (within.viewed known isView))

theorem current
    (within : heap.Within bounds) {value : Value}
    (valueWithin : value.Within bounds) :
    (heap.current value).Within bounds := by
  unfold Heap.current
  split
  · exact valueWithin
  · exact Value.within_current (within.holdings _ _) value valueWithin

theorem currentItems
    (within : heap.Within bounds) {items : List Value}
    (itemsWithin : Value.AllWithin bounds items) :
    Value.AllWithin bounds (heap.currentItems items) := by
  unfold Heap.currentItems
  split
  · exact itemsWithin
  · exact Value.allWithin_current (within.holdings _ _) items itemsWithin

theorem entries
    (within : heap.Within bounds) {id : Nat}
    (known : bounds.stores id) :
    Value.EntriesWithin bounds (heap.entries id) := by
  unfold Heap.entries
  cases found : heap.stores[id]? with
  | none => exact trivial
  | some store =>
      have stored := within.table (within.stores id store known found)
      simp only
      split
      · exact stored
      · exact Value.entriesWithin_current (within.holdings _ _) _ stored

theorem scopeValue
    (within : heap.Within bounds) {id : Nat}
    (known : bounds.scopes id) (escapes : bounds.escapes) :
    (heap.scopeValue id).Within bounds := by
  unfold Heap.scopeValue
  split
  · exact (within.scopes id _ known ‹_›).1
  · exact ⟨known, escapes⟩

theorem valueIn
    (within : heap.Within bounds) {vars : Variables} {key : Value} {found : Option Value}
    (varsWithin : vars.Within bounds)
    (isFound : heap.valueIn? vars key = .ok found) :
    ∀ value, found = some value → value.Within bounds := by
  unfold valueIn? at isFound
  split at isFound
  · exact Value.within_of_get (within.table varsWithin) isFound
  · exact Value.within_of_get (within.entries varsWithin) isFound
  · cases isFound
  · cases isFound

theorem firstValueIn
    (within : heap.Within bounds) {key : Value} {scopes : List Nat} {found : Option Value}
    (known : ∀ id ∈ scopes, bounds.scopes id)
    (isFound : heap.firstValueIn? key scopes = .ok found) :
    ∀ value, found = some value → value.Within bounds := by
  induction scopes with
  | nil =>
      cases isFound
      intro value same
      cases same
  | cons id rest inductionHypothesis =>
      have later : ∀ each ∈ rest, bounds.scopes each :=
        fun each member => known each (List.mem_cons_of_mem id member)
      rw [firstValueIn?] at isFound
      split at isFound
      · exact inductionHypothesis later isFound
      · rename_i scope isScope
        have varsWithin := (within.scopes id scope (known id List.mem_cons_self) isScope).1
        cases here : heap.valueIn? scope.vars key with
        | error failure =>
            rw [here] at isFound
            cases isFound
        | ok foundHere =>
            rw [here] at isFound
            cases foundHere with
            | none => exact inductionHypothesis later isFound
            | some value =>
                cases isFound
                exact within.valueIn varsWithin here

theorem lookup
    (within : heap.Within bounds) {scope : Nat} {key : Value} {found : Option Value}
    (known : bounds.scopes scope)
    (isFound : heap.lookup? scope key = .ok found) :
    ∀ value, found = some value → value.Within bounds := by
  unfold lookup? at isFound
  split at isFound
  · cases isFound
    intro value same
    cases same
  · rename_i inner isScope
    have outer := (within.scopes scope inner known isScope).2
    refine within.firstValueIn ?_ isFound
    intro id member
    rcases List.mem_cons.mp member with rfl | member
    · exact known
    · exact outer id member

theorem defined
    (within : heap.Within bounds) {scope : Nat} {key value : Value}
    {table : Nat} {revised : ValueEntries}
    (known : bounds.scopes scope)
    (keyWithin : key.Within bounds)
    (valueWithin : value.Within bounds)
    (isRevised : heap.defined scope key value = .ok (table, revised)) :
    bounds.tables table ∧ Value.EntriesWithin bounds revised := by
  unfold Heap.defined at isRevised
  split at isRevised
  · rename_i id outer isScope
    have tableKnown : bounds.tables id := (within.scopes scope _ known isScope).1
    cases put : ValueEntries.put (heap.table id) key value with
    | error failure =>
        rw [put] at isRevised
        cases isRevised
    | ok built =>
        rw [put] at isRevised
        cases isRevised
        exact ⟨tableKnown,
          Value.entriesWithin_of_put (within.table tableKnown) keyWithin valueWithin put⟩
  · cases isRevised

end Within

/-! ## What becomes of a heap -/

/-- A heap within bounds that another has become. -/
structure Becomes (bounds : Bounds) (before after : Heap) : Prop where
  extend : Extends bounds before after
  within : after.Within bounds

theorem Becomes.trans
    {first second third : Heap}
    (former : Becomes bounds first second)
    (latter : Becomes bounds second third) :
    Becomes bounds first third :=
  ⟨former.extend.trans latter.extend, latter.within⟩

namespace Within

variable {heap : Heap}

theorem becomesItself
    (within : heap.Within bounds) :
    Becomes bounds heap heap :=
  ⟨.refl heap, within⟩

/-- A number is given out. -/
theorem newBirth
    (within : heap.Within bounds) :
    Becomes bounds heap { heap with births := heap.births + 1 } where
  extend :=
    { Extends.refl heap with births := Nat.le_succ _ }
  within :=
    { within with
      freshBirths := fun birth fresh => within.freshBirths birth (Nat.le_of_succ_le fresh)
      freshContents := fun birth item fresh =>
        within.freshContents birth item (Nat.le_of_succ_le fresh) }

/-- A table is made. -/
theorem openTable
    (within : heap.Within bounds) {entries : ValueEntries}
    (entriesWithin : Value.EntriesWithin bounds entries) :
    Becomes bounds heap (heap.openTable entries).2 where
  extend :=
    { Extends.refl heap with
      tables := fun id outside => by
        have old : id < heap.tables.size := by
          apply Decidable.byContradiction
          intro fresh
          exact outside (within.freshTables id (Nat.le_of_not_lt fresh))
        simp only [Heap.openTable, Array.getElem?_push]
        rw [if_neg (Nat.ne_of_lt old)]
      tableCount := by simp [Heap.openTable] }
  within :=
    { within with
      tables := fun id found known isFound => by
        simp only [Heap.openTable, Array.getElem?_push] at isFound
        split at isFound
        · cases isFound
          exact entriesWithin
        · exact within.tables id found known isFound
      freshTables := fun id fresh => by
        apply within.freshTables
        simp only [Heap.openTable, Array.size_push] at fresh
        omega }

/-- A store with bounded entries is opened. -/
theorem openStore
    (within : heap.Within bounds) (name : String) {entries : ValueEntries}
    (entriesWithin : Value.EntriesWithin bounds entries) :
    (heap.openStore name entries).2.Within bounds := by
  have opened := (within.openTable entriesWithin).within
  have fresh : bounds.tables heap.tables.size := within.freshTables _ (Nat.le_refl _)
  refine { opened with stores := fun id store known isStore => ?_ }
  change (heap.stores.push ⟨name, heap.tables.size⟩)[id]? = some store at isStore
  rw [Array.getElem?_push] at isStore
  split at isStore
  · cases isStore
    exact fresh
  · exact within.stores id store known isStore

/-- A table within the bounds gets other entries. -/
theorem setTable
    (within : heap.Within bounds) {id : Nat} {entries : ValueEntries}
    (known : bounds.tables id)
    (entriesWithin : Value.EntriesWithin bounds entries) :
    Becomes bounds heap (heap.setTable id entries) where
  extend :=
    { Extends.refl heap with
      tables := fun other outside => by
        have different : id ≠ other := by
          rintro rfl
          exact outside known
        simp only [Heap.setTable, Array.getElem?_modify]
        rw [if_neg different]
      tableCount := by simp [Heap.setTable] }
  within :=
    { within with
      tables := fun other found otherKnown isFound => by
        simp only [Heap.setTable, Array.getElem?_modify] at isFound
        split at isFound
        · cases old : heap.tables[other]? with
          | none => simp [old] at isFound
          | some _ =>
              simp only [old, Option.map_some, Option.some.injEq] at isFound
              rw [← isFound]
              exact entriesWithin
        · exact within.tables other found otherKnown isFound
      freshTables := fun other fresh => by
        apply within.freshTables
        simpa [Heap.setTable] using fresh }

theorem setEntries
    (within : heap.Within bounds) {id : Nat} {entries : ValueEntries}
    (known : bounds.stores id)
    (entriesWithin : Value.EntriesWithin bounds entries) :
    Becomes bounds heap (heap.setEntries id entries) := by
  unfold Heap.setEntries
  split
  · exact within.setTable (within.stores id _ known ‹_›) entriesWithin
  · exact within.becomesItself

/-- A scope is opened. -/
theorem openScope
    (within : heap.Within bounds) {vars : Variables} {parent : Option Nat}
    (varsWithin : vars.Within bounds)
    (parentKnown : ∀ id, parent = some id → bounds.scopes id) :
    bounds.scopes (heap.openScope vars parent).1 ∧
      Becomes bounds heap (heap.openScope vars parent).2 := by
  have outerKnown : ∀ scope, (heap.openScope vars parent).2.scopes =
      heap.scopes.push scope → ∀ each ∈ scope.outer, bounds.scopes each := by
    intro scope isPushed each member
    have same := congrArg Array.back? isPushed
    simp only [Heap.openScope, Array.back?_push, Option.some.injEq] at same
    rw [← same] at member
    cases parent with
    | none => cases member
    | some id =>
        have known := parentKnown id rfl
        simp only at member
        split at member
        · rename_i found isFound
          rcases List.mem_cons.mp member with rfl | member
          · exact known
          · exact (within.scopes id found known isFound).2 each member
        · rw [List.mem_singleton.mp member]
          exact known
  refine ⟨within.freshScopes _ (Nat.le_refl _), ?_, ?_⟩
  · exact
      { Extends.refl heap with
        scopes := fun id scope isFound => by
          have old : id < heap.scopes.size := (Array.getElem?_eq_some_iff.mp isFound).1
          simp only [Heap.openScope, Array.getElem?_push]
          rw [if_neg (Nat.ne_of_lt old)]
          exact isFound
        scopeCount := by simp [Heap.openScope] }
  · exact
      { within with
        scopes := fun id scope known isFound => by
          simp only [Heap.openScope, Array.getElem?_push] at isFound
          split at isFound
          · cases isFound
            exact ⟨varsWithin, outerKnown _ rfl⟩
          · exact within.scopes id scope known isFound
        freshScopes := fun id fresh => by
          apply within.freshScopes
          simp only [Heap.openScope, Array.size_push] at fresh
          omega }

/-- A map that is a view of a table is asked for. -/
theorem view
    (within : heap.Within bounds) {table : Nat}
    (known : bounds.tables table) (byWay : (∃ id, bounds.stores id) ∨ bounds.escapes) :
    (heap.view table).1.Within bounds ∧ Becomes bounds heap (heap.view table).2 := by
  unfold Heap.view
  split
  · rename_i birth other isView
    have found := List.find?_some isView
    have same : other = table := eq_of_beq found
    have birthKnown : bounds.births birth :=
      (within.views _ (List.mem_of_find?_eq_some isView)).mpr (same ▸ known)
    exact ⟨⟨birthKnown, trivial⟩, within.becomesItself⟩
  · have fresh : bounds.births heap.births := within.freshBirths _ (Nat.le_refl _)
    refine ⟨⟨fresh, trivial⟩, ?_, ?_⟩
    · exact
        { Extends.refl heap with
          births := Nat.le_succ _
          views := fun birth outside => by
            have different : ¬ (heap.births == birth) = true := by
              intro same
              exact outside (eq_of_beq same ▸ fresh)
            simp only [viewed?, Entries.find?]
            rw [if_neg different]
          keepsViews := fun birth isView => by
            simp only [viewed?, Entries.find?] at isView ⊢
            split
            · rfl
            · exact isView
          sameViews := fun noStores sealed =>
            absurd byWay (not_or.mpr ⟨fun ⟨id, isStore⟩ => noStores id isStore, sealed⟩) }
    · exact
        { within with
          views := fun entry member => by
            rcases List.mem_cons.mp member with rfl | member
            · exact ⟨fun _ => known, fun _ => fresh⟩
            · exact within.views entry member
          freshBirths := fun birth later =>
            within.freshBirths birth (Nat.le_of_succ_le later)
          freshContents := fun birth item later =>
            within.freshContents birth item (Nat.le_of_succ_le later) }

theorem left_leave
    (birth other : Nat) (left : List Value) :
    (heap.leave birth left).left? other =
      if birth ≠ 0 ∧ birth = other then some left else heap.left? other := by
  unfold Heap.leave
  split
  · rename_i none
    simp [none]
  · rename_i numbered
    simp only [left?, ne_eq, numbered, not_false_eq_true, true_and]
    generalize heap.losses = losses
    induction losses with
    | nil => simp [Entries.put, Entries.find?]
    | cons entry rest inductionHypothesis =>
        obtain ⟨key, value⟩ := entry
        simp only [Entries.put]
        by_cases same : key = birth
        · subst same
          by_cases here : key = other <;> simp [Entries.find?, here]
        · by_cases here : key = other
          · subst here
            simp [Entries.find?, same, Ne.symm same]
          · simp [Entries.find?, same, here, inductionHypothesis]

/-- A list loses items. -/
theorem leave
    (within : heap.Within bounds) {birth : Nat} {left : List Value}
    (lists : bounds.Lists birth left)
    (losable : birth ≠ 0 → bounds.losable birth)
    (leftWithin : Value.AllWithin bounds left) :
    Becomes bounds heap (heap.leave birth left) := by
  have unchanged :
      (heap.leave birth left).tables = heap.tables ∧
      (heap.leave birth left).stores = heap.stores ∧
      (heap.leave birth left).scopes = heap.scopes ∧
      (heap.leave birth left).views = heap.views ∧
      (heap.leave birth left).births = heap.births := by
    unfold Heap.leave
    split <;> exact ⟨rfl, rfl, rfl, rfl, rfl⟩
  obtain ⟨tables, stores, scopes, views, births⟩ := unchanged
  constructor
  · constructor
    · exact stores
    · intro id scope isFound
      rwa [scopes]
    · exact Nat.le_of_eq (congrArg Array.size scopes).symm
    · intro id _
      rw [tables]
    · exact Nat.le_of_eq (congrArg Array.size tables).symm
    · exact Nat.le_of_eq births.symm
    · intro other outside
      rw [left_leave, if_neg]
      rintro ⟨-, rfl⟩
      exact outside lists.1
    · intro other _
      unfold viewed?
      rw [views]
    · intro other isLost
      rw [left_leave]
      split
      · rfl
      · exact isLost
    · intro other isView
      unfold viewed? at isView ⊢
      rw [views]
      exact isView
    · intro _ _
      exact views
  · constructor
    · rw [tables]
      exact within.tables
    · rw [stores]
      exact within.stores
    · rw [scopes]
      exact within.scopes
    · rw [views]
      exact within.views
    · intro other held otherKnown isHeld
      rw [left_leave] at isHeld
      split at isHeld
      · rename_i same
        cases isHeld
        exact ⟨same.2 ▸ losable same.1, leftWithin⟩
      · exact within.losses other held otherKnown isHeld
    · intro other held otherKnown isHeld
      rw [left_leave] at isHeld
      split at isHeld
      · rename_i same
        cases isHeld
        exact same.2 ▸ lists.2
      · exact within.kept other held otherKnown isHeld
    · rw [tables]
      exact within.freshTables
    · rw [scopes]
      exact within.freshScopes
    · rw [births]
      exact within.freshBirths
    · rw [births]
      exact within.freshContents

/-- A value is taken for the variables of a scope. -/
theorem variablesOf
    (within : heap.Within bounds) {holder : Value}
    (holderWithin : holder.Within bounds) (escapes : bounds.escapes) :
    (heap.variablesOf holder).1.Within bounds ∧
      Becomes bounds heap (heap.variablesOf holder).2 := by
  unfold Heap.variablesOf
  split
  · rename_i entries birth
    obtain ⟨known, entriesWithin⟩ := holderWithin
    split
    · rename_i id isView
      exact ⟨within.viewed known isView, within.becomesItself⟩
    · have opened := within.openTable entriesWithin
      have fresh : bounds.tables (heap.openTable entries).1 :=
        within.freshTables _ (Nat.le_refl _)
      refine ⟨fresh, ?_, ?_⟩
      · exact
          { opened.extend with
            views := fun other outside => by
              rw [← opened.extend.views other outside]
              have different : ¬ (birth == other) = true := by
                intro same
                exact outside (eq_of_beq same ▸ known)
              simp only [viewed?]
              split
              · rfl
              · rw [Entries.find?, if_neg different]
            keepsViews := fun other isViewed => by
              have kept := opened.extend.keepsViews other isViewed
              simp only [viewed?] at kept ⊢
              split
              · exact kept
              · rw [Entries.find?]
                split
                · rfl
                · exact kept
            sameViews := fun _ sealed => absurd escapes sealed }
      · exact
          { opened.within with
            views := fun entry member => by
              simp only at member
              split at member
              · exact opened.within.views entry member
              · rcases List.mem_cons.mp member with rfl | member
                · exact ⟨fun _ => fresh, fun _ => known⟩
                · exact opened.within.views entry member }
  · exact ⟨holderWithin, within.becomesItself⟩

end Within

/-! ## Other bounds -/

theorem variablesWithin_widen
    {narrow wide : Bounds} {vars : Variables}
    (narrower : narrow.Narrower wide)
    (tables : ∀ id, narrow.tables id → wide.tables id)
    (within : vars.Within narrow) :
    vars.Within wide := by
  cases vars with
  | table id => exact tables id within
  | inside holder => exact Value.within_widen narrower holder within
  | absent given => exact Value.within_widen narrower given within

/-- A heap is within other bounds that differ only in their evaluators, their forms and
the lists that may lose items. -/
theorem Within.widen
    {narrow wide : Bounds} {heap : Heap}
    (within : heap.Within narrow)
    (same : wide.stores = narrow.stores ∧ wide.scopes = narrow.scopes ∧
      wide.tables = narrow.tables ∧ wide.births = narrow.births)
    (evaluators : ∀ id, narrow.evaluators id → wide.evaluators id)
    (code : ∀ form, narrow.code form → wide.code form)
    (contents : ∀ birth item, narrow.contents birth item → wide.contents birth item)
    (escapes : narrow.escapes → wide.escapes)
    (losable : ∀ birth left, heap.left? birth = some left → narrow.losable birth →
      wide.losable birth) :
    heap.Within wide := by
  obtain ⟨sameStores, sameScopes, sameTables, sameBirths⟩ := same
  have narrower : narrow.Narrower wide := by
    refine ⟨?_, ?_, evaluators, ?_, code, contents, escapes⟩
    · rw [sameStores]
      exact fun _ known => known
    · rw [sameScopes]
      exact fun _ known => known
    · rw [sameBirths]
      exact fun _ known => known
  constructor
  · rw [sameTables]
    intro id entries known isTable
    exact Value.entriesWithin_widen narrower entries (within.tables id entries known isTable)
  · rw [sameStores, sameTables]
    exact within.stores
  · rw [sameScopes]
    intro id scope known isScope
    obtain ⟨varsWithin, outerKnown⟩ := within.scopes id scope known isScope
    refine ⟨variablesWithin_widen narrower ?_ varsWithin, outerKnown⟩
    rw [sameTables]
    exact fun _ tableKnown => tableKnown
  · rw [sameBirths, sameTables]
    exact within.views
  · rw [sameBirths]
    intro birth left known isLeft
    obtain ⟨isLosable, leftWithin⟩ := within.losses birth left known isLeft
    exact ⟨losable birth left isLeft isLosable, Value.allWithin_widen narrower left leftWithin⟩
  · rw [sameBirths]
    exact fun birth left known isLeft item member =>
      contents birth item (within.kept birth left known isLeft item member)
  · rw [sameTables]
    exact within.freshTables
  · rw [sameScopes]
    exact within.freshScopes
  · rw [sameBirths]
    exact within.freshBirths
  · exact fun birth item fresh => contents birth item (within.freshContents birth item fresh)

/-! ## Other evaluators -/

/-- A heap with other evaluators. -/
def equip (heap : Heap) (evaluators : Array EvaluatorState) : Heap := { heap with evaluators }

theorem Becomes.equip
    {before after : Heap}
    (becomes : Becomes bounds before after) (evaluators : Array EvaluatorState) :
    Becomes bounds before (after.equip evaluators) :=
  ⟨{ becomes.extend with }, { becomes.within with }⟩

section Equip

variable (heap : Heap) (evaluators : Array EvaluatorState)

@[simp]
theorem equip_stores : (heap.equip evaluators).stores = heap.stores := rfl

@[simp]
theorem equip_scopes : (heap.equip evaluators).scopes = heap.scopes := rfl

@[simp]
theorem equip_births : (heap.equip evaluators).births = heap.births := rfl

@[simp]
theorem equip_evaluators : (heap.equip evaluators).evaluators = evaluators := rfl

@[simp]
theorem table_equip (id : Nat) : (heap.equip evaluators).table id = heap.table id := rfl

@[simp]
theorem viewed_equip (birth : Nat) :
    (heap.equip evaluators).viewed? birth = heap.viewed? birth := rfl

@[simp]
theorem left_equip (birth : Nat) :
    (heap.equip evaluators).left? birth = heap.left? birth := rfl

@[simp]
theorem holdings_equip (budget : Nat) (path : List Nat) :
    (heap.equip evaluators).holdings budget path = heap.holdings budget path := by
  induction budget generalizing path with
  | zero => rfl
  | succ budget inductionHypothesis => simp [holdings, inductionHypothesis]

@[simp]
theorem current_equip (value : Value) :
    (heap.equip evaluators).current value = heap.current value := by
  unfold current present
  rw [holdings_equip]
  rfl

@[simp]
theorem currentItems_equip (items : List Value) :
    (heap.equip evaluators).currentItems items = heap.currentItems items := by
  unfold currentItems present
  rw [holdings_equip]
  rfl

@[simp]
theorem entries_equip (id : Nat) : (heap.equip evaluators).entries id = heap.entries id := by
  unfold entries present
  rw [holdings_equip]
  rfl

@[simp]
theorem storeName_equip (id : Nat) :
    (heap.equip evaluators).storeName id = heap.storeName id := rfl

@[simp]
theorem scopeValue_equip (id : Nat) :
    (heap.equip evaluators).scopeValue id = heap.scopeValue id := rfl

@[simp]
theorem valueIn_equip (vars : Variables) (key : Value) :
    (heap.equip evaluators).valueIn? vars key = heap.valueIn? vars key := by
  unfold valueIn?
  simp only [table_equip, entries_equip]

@[simp]
theorem firstValueIn_equip (key : Value) (scopes : List Nat) :
    (heap.equip evaluators).firstValueIn? key scopes = heap.firstValueIn? key scopes := by
  induction scopes with
  | nil => rfl
  | cons id rest inductionHypothesis =>
      simp only [firstValueIn?, equip_scopes, valueIn_equip, inductionHypothesis]

@[simp]
theorem lookup_equip (scope : Nat) (key : Value) :
    (heap.equip evaluators).lookup? scope key = heap.lookup? scope key := by
  simp only [lookup?, equip_scopes, firstValueIn_equip]

@[simp]
theorem defined_equip (scope : Nat) (key value : Value) :
    (heap.equip evaluators).defined scope key value = heap.defined scope key value := rfl

@[simp]
theorem showStore_equip (budget : Nat) (path : List Enclosure) (id : Nat) :
    (heap.equip evaluators).showStore budget path id = heap.showStore budget path id := by
  induction budget generalizing path id with
  | zero => rfl
  | succ budget inductionHypothesis =>
      have inner : (heap.equip evaluators).showStore budget = heap.showStore budget := by
        funext path id
        exact inductionHypothesis path id
      rw [showStore, showStore, inner, entries_equip, storeName_equip]

@[simp]
theorem showAnyStore_equip :
    (heap.equip evaluators).showAnyStore = heap.showAnyStore := by
  funext path id
  simp only [showAnyStore, showStore_equip]

@[simp]
theorem shown_equip : (heap.equip evaluators).shown = heap.shown := by
  funext value
  simp only [shown, current_equip, showAnyStore_equip]

@[simp]
theorem source_equip : (heap.equip evaluators).source = heap.source := by
  funext value
  simp only [source, current_equip, showAnyStore_equip]

@[simp]
theorem display_equip : (heap.equip evaluators).display = heap.display := by
  funext value
  simp only [display, current_equip, showAnyStore_equip]

@[simp]
theorem textPart_equip : (heap.equip evaluators).textPart = heap.textPart := by
  funext value
  simp only [textPart, current_equip, showAnyStore_equip]

theorem setEntries_equip (id : Nat) (entries : ValueEntries) :
    (heap.equip evaluators).setEntries id entries =
      (heap.setEntries id entries).equip evaluators := by
  unfold setEntries
  rw [equip_stores]
  split <;> rfl

theorem view_equip (table : Nat) :
    (heap.equip evaluators).view table =
      ((heap.view table).1, (heap.view table).2.equip evaluators) := by
  unfold view
  simp only [equip]
  split <;> rfl

theorem leave_equip (birth : Nat) (left : List Value) :
    (heap.equip evaluators).leave birth left = (heap.leave birth left).equip evaluators := by
  unfold leave
  split <;> rfl

theorem variablesOf_equip (holder : Value) :
    (heap.equip evaluators).variablesOf holder =
      ((heap.variablesOf holder).1, (heap.variablesOf holder).2.equip evaluators) := by
  unfold variablesOf
  simp only [viewed_equip]
  split
  · split <;> rfl
  · rfl

end Equip

end Heap

end CueScript
