import CueScript.Proofs.Run.Reach
import CueScript.Proofs.Twin.Heap

/-!
# Changes of heaps under other numbers

What is done to two heaps that are alike keeps them alike: tables, scopes and views get
the next numbers, which both heaps give out in step, and what is changed is found under
the number that it has in each of them.
-/

namespace CueScript

namespace Heap.Apart

variable {heap : Heap}

theorem of_same
    (apart : heap.Apart) {other : Heap} (views : other.views = heap.views)
    (unnumbered : other.left? 0 = heap.left? 0) (stores : other.stores = heap.stores)
    (scopes : other.scopes = heap.scopes) (tables : heap.tables.size ≤ other.tables.size) :
    other.Apart where
  views := views.trans apart.views
  unnumbered := unnumbered.trans apart.unnumbered
  stores id store isStore :=
    Nat.lt_of_lt_of_le (apart.stores id store (stores ▸ isStore)) tables
  owners := by
    rw [stores]
    exact apart.owners
  scopes := by
    rw [stores, scopes]
    intro id scope isScope
    obtain ⟨table, isTable, below, unowned⟩ := apart.scopes id scope isScope
    exact ⟨table, isTable, Nat.lt_of_lt_of_le below tables, unowned⟩

/-- A store with a table of its own is opened. -/
theorem openStore (apart : heap.Apart) (name : String) (entries : ValueEntries) :
    (heap.openStore name entries).2.Apart := by
  have size : (heap.openStore name entries).2.tables.size = heap.tables.size + 1 :=
    Array.size_push ..
  have cases (id : Nat) (store : Store)
      (isStore : (heap.openStore name entries).2.stores[id]? = some store) :
      id = heap.stores.size ∧ store.table = heap.tables.size ∨
        heap.stores[id]? = some store := by
    change (heap.stores.push ⟨name, heap.tables.size⟩)[id]? = some store at isStore
    rw [Array.getElem?_push] at isStore
    split at isStore
    · cases isStore
      exact .inl ⟨‹_›, rfl⟩
    · exact .inr isStore
  constructor
  · exact apart.views
  · exact apart.unnumbered
  · intro id store isStore
    rw [size]
    rcases cases id store isStore with ⟨-, isNew⟩ | isOld
    · omega
    · exact Nat.lt_succ_of_lt (apart.stores id store isOld)
  · intro id other store another isStore isOther same
    rcases cases id store isStore with ⟨isLast, isNew⟩ | isOld
    · rcases cases other another isOther with ⟨isLastToo, -⟩ | isOld
      · rw [isLast, isLastToo]
      · have below := apart.stores other another isOld
        omega
    · rcases cases other another isOther with ⟨-, isNew⟩ | isOldToo
      · have below := apart.stores id store isOld
        omega
      · exact apart.owners id other store another isOld isOldToo same
  · intro id scope isScope
    obtain ⟨table, isTable, below, unowned⟩ := apart.scopes id scope isScope
    refine ⟨table, isTable, ?_, fun other store isStore => ?_⟩
    · rw [size]
      exact Nat.lt_succ_of_lt below
    · rcases cases other store isStore with ⟨-, isNew⟩ | isOld
      · omega
      · exact unowned other store isOld

/-- A scope with variables in a table is opened. -/
theorem pushScope
    (apart : heap.Apart) {table : Nat} (below : table < heap.tables.size)
    (unowned : ∀ (other : Nat) (store : Store), heap.stores[other]? = some store →
      store.table ≠ table) (outer : List Nat) :
    { heap with scopes := heap.scopes.push ⟨.table table, outer⟩ }.Apart :=
  { apart with
    scopes := fun id scope isScope => by
      simp only [Array.getElem?_push] at isScope
      split at isScope
      · cases isScope
        exact ⟨table, rfl, below, unowned⟩
      · exact apart.scopes id scope isScope
    views := apart.views
    unnumbered := apart.unnumbered
    stores := apart.stores
    owners := apart.owners }

/-- A list loses items. -/
theorem leave (apart : heap.Apart) (birth : Nat) (items : List Value) :
    (heap.leave birth items).Apart := by
  have unnumbered : (heap.leave birth items).left? 0 = heap.left? 0 := by
    rw [Within.left_leave, if_neg]
    rintro ⟨numbered, rfl⟩
    exact numbered rfl
  unfold Heap.leave at unnumbered ⊢
  split
  · exact apart
  · rename_i numbered
    rw [if_neg numbered] at unnumbered
    exact apart.of_same rfl unnumbered rfl rfl (Nat.le_refl _)

end Heap.Apart

namespace Heap.Like

variable {pairing : Pairing} {left right : Heap}

theorem nextBirth_zero (like : Like pairing left right) :
    pairing.numbers.births left.births = right.births := like.nextBirth 0

theorem nextTable_zero (like : Like pairing left right) :
    pairing.numbers.tables left.tables.size = right.tables.size := like.nextTable 0

theorem nextScope_zero (like : Like pairing left right) :
    pairing.numbers.scopes left.scopes.size = right.scopes.size := like.nextScope 0

theorem newTable_kept (like : Like pairing left right) :
    pairing.aside left.tables.size = none := by
  cases isAside : pairing.aside left.tables.size with
  | none => rfl
  | some held =>
      have isHeld := (like.asides _ held.1 held.2 isAside).1
      rw [Array.getElem?_eq_none (Nat.le_refl _)] at isHeld
      cases isHeld

/-- No scope stands behind one that is not there yet. -/
theorem newScope_unbacked
    (like : Like pairing left right) {id : Nat} (isNew : left.scopes.size ≤ id) :
    pairing.behind id = none := by
  cases isBehind : pairing.behind id with
  | none => rfl
  | some backing =>
      obtain ⟨⟨outer, isScope⟩, -⟩ := like.backed id backing isBehind
      rw [Array.getElem?_eq_none isNew] at isScope
      cases isScope

/-- Numbers are used up. -/
theorem skip (like : Like pairing left right) (count : Nat) :
    Like pairing { left with births := left.births + count }
      { right with births := right.births + count } :=
  { like with
    nextBirth := fun further => by
      have next := like.nextBirth (count + further)
      rw [← Nat.add_assoc, ← Nat.add_assoc] at next
      exact next
    apart := fun isApart => (like.apart isApart).of_same rfl rfl rfl rfl (Nat.le_refl _) }

/-! ## Tables -/

theorem pushTable
    (like : Like pairing left right) (entries : ValueEntries) :
    Like pairing { left with tables := left.tables.push entries }
      { right with
        tables := right.tables.push (entries.map (Value.renameEntry pairing.numbers)) } :=
  { like with
    tables := fun id kept => by
      simp only [Array.getElem?_push, ← like.nextTable_zero,
        pairing.numbers.tables_injective.eq_iff, like.tables id kept]
      split <;> rfl
    asides := fun id entries others isAside => by
      obtain ⟨isLeft, isRight⟩ := like.asides id entries others isAside
      have old : id ≠ left.tables.size := by
        rintro rfl
        rw [like.newTable_kept] at isAside
        cases isAside
      simp only [Array.getElem?_push, ← like.nextTable_zero,
        pairing.numbers.tables_injective.eq_iff, if_neg old]
      exact ⟨isLeft, isRight⟩
    backed := fun id backing isBehind => by
      obtain ⟨isScope, isBackScope, isOwn⟩ := like.backed id backing isBehind
      exact ⟨isScope, isBackScope, getElem?_push_of_some isOwn _⟩
    nextTable := fun further => by
      have next := like.nextTable (1 + further)
      rw [← Nat.add_assoc, ← Nat.add_assoc] at next
      simp only [Array.size_push]
      exact next
    apart := fun isApart => (like.apart isApart).of_same rfl rfl rfl rfl (by simp) }

theorem openTable
    (like : Like pairing left right) (entries : ValueEntries) :
    (right.openTable (entries.map (Value.renameEntry pairing.numbers))).1 =
        pairing.numbers.tables (left.openTable entries).1 ∧
      Like pairing (left.openTable entries).2
        (right.openTable (entries.map (Value.renameEntry pairing.numbers))).2 :=
  ⟨like.nextTable_zero.symm, like.pushTable entries⟩

theorem setTable
    (like : Like pairing left right) {id : Nat} (kept : pairing.aside id = none)
    (entries : ValueEntries) :
    Like pairing (left.setTable id entries)
      (right.setTable (pairing.numbers.tables id)
        (entries.map (Value.renameEntry pairing.numbers))) :=
  { like with
    tables := fun other otherKept => by
      simp only [Heap.setTable, Array.getElem?_modify,
        pairing.numbers.tables_injective.eq_iff, like.tables other otherKept]
      split
      · cases left.tables[other]? <;> rfl
      · rfl
    asides := fun other held others isAside => by
      obtain ⟨isLeft, isRight⟩ := like.asides other held others isAside
      have different : id ≠ other := by
        rintro rfl
        rw [kept] at isAside
        cases isAside
      simp only [Heap.setTable, Array.getElem?_modify,
        pairing.numbers.tables_injective.eq_iff, if_neg different]
      exact ⟨isLeft, isRight⟩
    backed := fun other backing isBehind => by
      obtain ⟨isScope, isBackScope, isOwn⟩ := like.backed other backing isBehind
      refine ⟨isScope, isBackScope, ?_⟩
      simp only [Heap.setTable, Array.getElem?_modify]
      rw [if_neg ((pairing.joint other backing isBehind).1 id)]
      exact isOwn
    nextTable := fun further => by
      simp only [Heap.setTable, Array.size_modify]
      exact like.nextTable further
    apart := fun isApart =>
      (like.apart isApart).of_same rfl rfl rfl rfl (by simp [Heap.setTable]) }

theorem setEntries
    (like : Like pairing left right) (id : Nat) (entries : ValueEntries) :
    Like pairing (left.setEntries id entries)
      (right.setEntries id (entries.map (Value.renameEntry pairing.numbers))) := by
  unfold Heap.setEntries
  rw [like.store]
  cases isStore : left.stores[id]? with
  | none => exact like
  | some store => exact like.setTable (like.storesKept id store isStore) entries

theorem openStore
    (like : Like pairing left right) (name : String) (entries : ValueEntries) :
    Like pairing (left.openStore name entries).2
      (right.openStore name (entries.map (Value.renameEntry pairing.numbers))).2 :=
  { like.pushTable entries with
    stores := by
      simp only [Heap.openStore, Heap.openTable, like.stores, Array.map_push, Store.renumber,
        like.nextTable_zero]
    storesKept := fun id store isStore => by
      simp only [Heap.openStore, Heap.openTable, Array.getElem?_push] at isStore
      split at isStore
      · cases isStore
        exact like.newTable_kept
      · exact like.storesKept id store isStore
    apart := fun isApart => (like.apart isApart).openStore name entries }

/-! ## Lists and views -/

theorem leave
    (like : Like pairing left right) (birth : Nat) (items : List Value) :
    Like pairing (left.leave birth items)
      (right.leave (pairing.numbers.births birth)
        (items.map (Value.rename pairing.numbers))) := by
  unfold Heap.leave
  simp only [Value.births_eq_zero]
  split
  · exact like
  · exact
      { like with
        losses := by
          rw [like.losses]
          exact Entries.put_map pairing.numbers.births_injective
            (List.map (Value.rename pairing.numbers)) birth items left.losses
        apart := fun isApart => by
          have left := (like.apart isApart).leave birth items
          rwa [Heap.leave, if_neg ‹_›] at left }

/-- A number becomes that of a view. -/
theorem addView
    (like : Like pairing left right) (together : ¬ pairing.apart) {table : Nat}
    (kept : pairing.aside table = none) (birth : Nat) :
    Like pairing { left with views := (birth, table) :: left.views }
      { right with
        views := (pairing.numbers.births birth, pairing.numbers.tables table) ::
          right.views } :=
  { like with
    views := by simp only [like.views, List.map_cons]
    viewsKept := fun entry member => by
      rcases List.mem_cons.mp member with rfl | member
      · exact kept
      · exact like.viewsKept entry member
    apart := fun isApart => absurd isApart together }

theorem find_view (like : Like pairing left right) (table : Nat) :
    List.find? (fun entry => entry.2 == pairing.numbers.tables table) right.views =
      (List.find? (fun entry => entry.2 == table) left.views).map fun entry =>
        (pairing.numbers.births entry.1, pairing.numbers.tables entry.2) := by
  rw [like.views, List.find?_map]
  congr 2
  funext entry
  exact Value.tables_beq pairing.numbers entry.2 table

theorem view
    (like : Like pairing left right) (together : ¬ pairing.apart) {table : Nat}
    (kept : pairing.aside table = none) :
    (right.view (pairing.numbers.tables table)).1 =
        (left.view table).1.rename pairing.numbers ∧
      Like pairing (left.view table).2 (right.view (pairing.numbers.tables table)).2 := by
  unfold Heap.view
  rw [like.find_view]
  cases List.find? (fun entry => entry.2 == table) left.views with
  | some entry => exact ⟨by simp, like⟩
  | none =>
      refine ⟨?_, ?_⟩
      · simp [like.nextBirth_zero]
      · have added := (like.addView together kept left.births).skip 1
        rw [like.nextBirth_zero] at added
        exact added

/-! ## Scopes -/

theorem openScope
    (like : Like pairing left right) {vars : Variables}
    (kept : ∀ table, vars = .table table → pairing.aside table = none)
    (own : pairing.apart → ∃ table, vars = .table table ∧ table < left.tables.size ∧
      ∀ (id : Nat) (store : Store), left.stores[id]? = some store → store.table ≠ table)
    (parent : Option Nat) (meet : ∀ id, parent = some id → pairing.Meets id) :
    (right.openScope (vars.rename pairing.numbers) (parent.map pairing.numbers.scopes)).1 =
        pairing.numbers.scopes (left.openScope vars parent).1 ∧
      Like pairing (left.openScope vars parent).2
        (right.openScope (vars.rename pairing.numbers)
          (parent.map pairing.numbers.scopes)).2 := by
  have unbacked : pairing.behind left.scopes.size = none := like.newScope_unbacked (Nat.le_refl _)
  have opened {outer : List Nat} (meetOuter : ∀ id ∈ outer, pairing.Meets id) :
      Like pairing { left with scopes := left.scopes.push ⟨vars, outer⟩ }
        { right with
          scopes := right.scopes.push
            ⟨vars.rename pairing.numbers, pairing.chain outer⟩ } :=
    { like with
      scopes := fun id meets => by
        simp only [Array.getElem?_push, ← like.nextScope_zero,
          pairing.numbers.scopes_injective.eq_iff, like.scopes id meets]
        split
        · rename_i isNew
          rw [isNew, Option.map_some, Pairing.scope, unbacked]
          rfl
        · rfl
      closed := fun id inner meets isScope => by
        rw [Array.getElem?_push] at isScope
        split at isScope
        · cases isScope
          exact ⟨meetOuter, fun table isTable isAdrift =>
            pairing.adriftAside table isAdrift (kept table isTable)⟩
        · exact like.closed id inner meets isScope
      backed := fun id backing isBehind => by
        obtain ⟨⟨outside, isScope⟩, ⟨behind, isBackScope⟩, isOwn⟩ :=
          like.backed id backing isBehind
        exact ⟨⟨outside, getElem?_push_of_some isScope _⟩,
          ⟨behind, getElem?_push_of_some isBackScope _⟩, isOwn⟩
      backedOnly := fun id backing other outside isBehind meets isScope => by
        obtain ⟨-, entries, others, isAside, -⟩ := pairing.joint id backing isBehind
        rw [Array.getElem?_push] at isScope
        split at isScope
        · cases isScope
          rw [kept backing.table rfl] at isAside
          cases isAside
        · exact like.backedOnly id backing other outside isBehind meets isScope
      nextScope := fun further => by
        have next := like.nextScope (1 + further)
        rw [← Nat.add_assoc, ← Nat.add_assoc] at next
        simp only [Array.size_push]
        exact next
      scopesKept := fun id table outside isScope owned => by
        rw [Array.getElem?_push] at isScope
        split at isScope
        · cases isScope
          exact kept table rfl
        · exact like.scopesKept id table outside isScope owned
      scopeCount := by
        simp only [Array.size_push]
        exact Nat.le_succ_of_le like.scopeCount
      apart := fun isApart => by
        obtain ⟨table, rfl, below, unowned⟩ := own isApart
        exact (like.apart isApart).pushScope below unowned outer }
  refine ⟨like.nextScope_zero.symm, ?_⟩
  cases parent with
  | none => exact opened fun id member => absurd member List.not_mem_nil
  | some id =>
      have meets := meet id rfl
      simp only [Heap.openScope, Option.map_some, like.scopes id meets]
      cases isScope : left.scopes[id]? with
      | none =>
          have outermost := opened (List.forall_mem_singleton.mpr meets)
          rwa [pairing.chain_cons, Pairing.scopesFor,
            like.newScope_unbacked (Array.getElem?_eq_none_iff.mp isScope)] at outermost
      | some scope =>
          have inside := opened
            (List.forall_mem_cons.mpr ⟨meets, (like.closed id scope meets isScope).1⟩)
          rwa [pairing.chain_cons] at inside

theorem variablesOf
    (like : Like pairing left right) (together : ¬ pairing.apart) (holder : Value) :
    (right.variablesOf (holder.rename pairing.numbers)).1 =
        (left.variablesOf holder).1.rename pairing.numbers ∧
      Like pairing (left.variablesOf holder).2
        (right.variablesOf (holder.rename pairing.numbers)).2 := by
  cases holder with
  | map entries birth =>
      simp only [Value.rename_map, Heap.variablesOf, like.viewed]
      cases isView : left.viewed? birth with
      | some table => exact ⟨rfl, like⟩
      | none =>
          obtain ⟨sameTable, opened⟩ := like.openTable entries
          simp only [Option.map_none, Value.births_eq_zero, sameTable, Variables.rename, true_and]
          split
          · exact opened
          · exact opened.addView together like.newTable_kept birth
  | _ => exact ⟨rfl, like⟩

/-! ## Evaluators -/

theorem setHostDepth
    (like : Like pairing left right) {depth deeper : Int}
    (levels : pairing.Levels depth deeper) (evaluator : Nat) :
    Like pairing (left.setHostDepth evaluator depth)
      (right.setHostDepth evaluator deeper) := by
  have config (heap : Heap) (depth : Int) (id : Nat) :
      (heap.setHostDepth evaluator depth).config id = heap.config id := by
    by_cases same : evaluator = id
    · simp only [Heap.config, Heap.setHostDepth, Array.getElem?_modify, if_pos same]
      cases heap.evaluators[id]? <;> rfl
    · simp only [Heap.config, Heap.setHostDepth, Array.getElem?_modify, if_neg same]
  have hostDepth (heap : Heap) (depth : Int) (id : Nat) :
      (heap.setHostDepth evaluator depth).hostDepth id =
        if evaluator = id ∧ id < heap.evaluators.size then depth else heap.hostDepth id := by
    simp only [Heap.hostDepth, Heap.setHostDepth, Array.getElem?_modify]
    by_cases same : evaluator = id
    · subst same
      by_cases inside : evaluator < heap.evaluators.size
      · simp [inside]
      · simp [inside]
    · simp [same]
  exact
    { like with
      evaluatorCount := by
        simp only [Heap.setHostDepth, Array.size_modify]
        exact like.evaluatorCount
      configs := fun id => by
        rw [config, config]
        exact like.configs id
      hostDepths := fun id => by
        rw [hostDepth, hostDepth, like.evaluatorCount]
        split
        · exact levels
        · exact like.hostDepths id
      apart := fun isApart => (like.apart isApart).of_same rfl rfl rfl rfl (Nat.le_refl _) }

end Heap.Like

end CueScript
