import CueScript.Proofs.Keys
import CueScript.Proofs.Symbols.Body
import CueScript.Proofs.Twin.Identity

/-!
# Scopes that nothing leads to

A scope may be filled step by step, or all that is still to come may go to another one inside
it.  As long as nothing leads to the scope, a run that goes on in it and one that goes on in
the other are twins: the scope of the first stands for both of the second, and whatever is
looked up there is found in one of them.
-/

namespace CueScript

namespace Heap

/-- The bounds within which there is all that is not adrift, but for one scope. -/
def besides (heap : Heap) (adrift : Adrift) (scope : Nat) : Bounds :=
  { Bounds.anything with
    scopes := fun id => id < heap.scopes.size ∧ ¬ adrift.scopes id ∧ id ≠ scope
    tables := fun id => id < heap.tables.size ∧ ¬ adrift.tables id }

/-- Whether a scope has a table of its own and nothing leads to the scope.  Nothing is said
of scopes and tables that are adrift, to which nothing else leads, either. -/
structure Unheld (heap : Heap) (scope table : Nat) (adrift : Adrift) : Prop where
  isScope : ∃ outer, heap.scopes[scope]? = some ⟨.table table, outer⟩
  kept : ¬ adrift.scopes scope
  there : ∀ id, (adrift.scopes id → id < heap.scopes.size) ∧
    (adrift.tables id → id < heap.tables.size)
  tables : ∀ (id : Nat) (entries : ValueEntries), ¬ adrift.tables id →
    heap.tables[id]? = some entries → Value.EntriesWithin (heap.besides adrift scope) entries
  losses : ∀ entry ∈ heap.losses, Value.AllWithin (heap.besides adrift scope) entry.2
  scopes : ∀ (id : Nat) (inner : Scope), ¬ adrift.scopes id → heap.scopes[id]? = some inner →
    inner.vars.Within (heap.besides adrift scope) ∧
      ∀ outer ∈ inner.outer, (heap.besides adrift scope).scopes outer
  stores : ∀ (id : Nat) (store : Store), heap.stores[id]? = some store →
    (heap.besides adrift scope).tables store.table ∧ store.table ≠ table
  views : ∀ entry ∈ heap.views, (heap.besides adrift scope).tables entry.2 ∧ entry.2 ≠ table
  alone : ∀ (id : Nat) (outer : List Nat), ¬ adrift.scopes id →
    heap.scopes[id]? = some ⟨.table table, outer⟩ → id = scope

end Heap

/-! ## One scope for two -/

/-- The next free number for one of the numbers that are given out, and the numbers from
there on one further. -/
def vacated (size place number : Nat) : Nat :=
  if number = place then size else if number < size then number else number + 1

theorem vacated_injective (size place : Nat) : Function.Injective (vacated size place) := by
  intro first second same
  unfold vacated at same
  grind

theorem vacated_ne {size place : Nat} (below : place < size) (number : Nat) :
    vacated size place number ≠ place := by
  unfold vacated
  split
  · omega
  · split <;> omega

theorem vacated_of_lt {size place number : Nat} (below : number < size) (other : number ≠ place) :
    vacated size place number = number := by
  rw [vacated, if_neg other, if_pos below]

theorem vacated_self (size place : Nat) : vacated size place place = size := if_pos rfl

theorem vacated_further {size place : Nat} (below : place < size) (further : Nat) :
    vacated size place (size + further) = size + 1 + further := by
  rw [vacated, if_neg (by omega), if_neg (by omega)]
  omega

/-- The numbers of a run that goes on in another scope, with a table of its own. -/
def Heap.vacating (heap : Heap) (scope table : Nat) : Renaming where
  births birth := birth
  scopes := vacated heap.scopes.size scope
  tables := vacated heap.tables.size table
  births_injective := Function.injective_id
  births_zero := Renaming.births_zero .identity
  scopes_injective := vacated_injective _ _
  tables_injective := vacated_injective _ _

theorem Heap.vacating_fixes (heap : Heap) (adrift : Adrift) (scope table : Nat) :
    (heap.vacating scope table).Fixes (heap.besides adrift scope) where
  births _ := rfl
  scopes _ _ known := vacated_of_lt known.1 known.2.2

namespace Heap.Unheld

variable {heap : Heap} {scope table : Nat} {adrift : Adrift}

theorem scope_lt (unheld : heap.Unheld scope table adrift) : scope < heap.scopes.size := by
  obtain ⟨outer, isScope⟩ := unheld.isScope
  exact (Array.getElem?_eq_some_iff.mp isScope).1

theorem table_known (unheld : heap.Unheld scope table adrift) :
    (heap.besides adrift scope).tables table := by
  obtain ⟨outer, isScope⟩ := unheld.isScope
  exact (unheld.scopes scope _ unheld.kept isScope).1

theorem table_lt (unheld : heap.Unheld scope table adrift) : table < heap.tables.size :=
  unheld.table_known.1

end Heap.Unheld

/-- What a single scope holds, and the inner one of two that it stands for; the outer one
keeps what it has. -/
structure Share (ρ : Renaming) (outer : ValueEntries) where
  whole : ValueEntries
  inner : ValueEntries
  together : ∀ name,
    (Entries.find? Value.sameKey (.str name) inner).or
        (Entries.find? Value.sameKey (.str name) outer) =
      (Entries.find? Value.sameKey (.str name) whole).map (Value.rename ρ)

/-- A variable is set in both of them. -/
def Share.put {ρ : Renaming} {outer : ValueEntries} (share : Share ρ outer) (name : String)
    (value : Value) : Share ρ outer where
  whole := Entries.put Value.sameKey (.str name) value share.whole
  inner := Entries.put Value.sameKey (.str name) (value.rename ρ) share.inner
  together other := by
    rw [ValueEntries.find?_put_str, ValueEntries.find?_put_str]
    split
    · rfl
    · exact share.together other

namespace Heap.Unheld

variable {heap : Heap} {scope table : Nat} {adrift : Adrift}

/-- A run in the single scope beside one that goes on in the inner one of two. -/
def pairing
    (unheld : heap.Unheld scope table adrift) (alarm : Fault)
    (share : Share (heap.vacating scope table) (heap.table table)) :
    Pairing where
  numbers := heap.vacating scope table
  slack := True
  aside id :=
    if id = table then
      some (share.whole, share.inner)
    else if adrift.tables id then
      some (heap.table id, heap.table id)
    else
      none
  spoken _ := True
  behind id := if id = scope then some ⟨table, scope, table, heap.table table⟩ else none
  adrift := adrift
  alike id entries others isAside single kept := by
    have notTable : id ≠ table := fun isTable => single scope _ (if_pos rfl) isTable.symm
    rw [if_neg notTable, if_neg kept] at isAside
    cases isAside
  joint id backing isBehind := by
    split at isBehind
    · cases isBehind
      exact ⟨vacated_ne unheld.table_lt, share.whole, share.inner, if_pos rfl,
        fun name _ => share.together name⟩
    · cases isBehind
  ownScopes := heap.scopes.size
  adriftBehind _ _ := ⟨scope, _, if_pos rfl⟩
  adriftOld id isAdrift := (unheld.there id).1 isAdrift
  adriftAside id isAdrift := by
    by_cases isTable : id = table
    · rw [if_pos isTable]
      exact Option.some_ne_none _
    · rw [if_neg isTable, if_pos isAdrift]
      exact Option.some_ne_none _
  alarm := alarm

/-- At first the inner scope holds nothing. -/
def share (unheld : heap.Unheld scope table adrift) :
    Share (heap.vacating scope table) (heap.table table) where
  whole := heap.table table
  inner := []
  together name := by
    have within := unheld.tables table _ unheld.table_known.2 (getElem?_tables unheld.table_lt)
    exact ((heap.vacating_fixes adrift scope table).find?_eq within (.str name)).symm

variable (unheld : heap.Unheld scope table adrift) (alarm : Fault)
  (share : Share (heap.vacating scope table) (heap.table table))

theorem aside_self :
    (unheld.pairing alarm share).aside table = some (share.whole, share.inner) := if_pos rfl

/-- What is adrift is set aside as it is. -/
theorem aside_adrift {id : Nat} (other : id ≠ table) (isAdrift : adrift.tables id = true) :
    (unheld.pairing alarm share).aside id = some (heap.table id, heap.table id) :=
  (if_neg other).trans (if_pos isAdrift)

theorem aside_eq_none
    {id : Nat} :
    (unheld.pairing alarm share).aside id = none ↔ id ≠ table ∧ ¬ adrift.tables id := by
  constructor
  · intro kept
    constructor
    · rintro rfl
      cases (unheld.aside_self alarm share).symm.trans kept
    · intro isAdrift
      by_cases same : id = table
      · rw [same, unheld.aside_self] at kept
        cases kept
      · cases (unheld.aside_adrift alarm share same isAdrift).symm.trans kept
  · rintro ⟨other, kept⟩
    exact (if_neg other).trans (if_neg kept)

theorem behind_eq
    {id : Nat} {backing : Backing}
    (isBehind : (unheld.pairing alarm share).behind id = some backing) :
    id = scope ∧ backing = ⟨table, scope, table, heap.table table⟩ := by
  change (if id = scope then _ else _) = _ at isBehind
  split at isBehind
  · cases isBehind
    exact ⟨‹_›, rfl⟩
  · cases isBehind

theorem scopesFor_eq {id : Nat} (other : id ≠ scope) :
    (unheld.pairing alarm share).scopesFor id = [(heap.vacating scope table).scopes id] := by
  rw [Pairing.scopesFor, show (unheld.pairing alarm share).behind id = none from if_neg other]
  rfl

/-- Only the scope itself has another one inside it in the other run. -/
theorem chain_eq
    {scopes : List Nat} (known : ∀ id ∈ scopes, (heap.besides adrift scope).scopes id) :
    (unheld.pairing alarm share).chain scopes = scopes := by
  induction scopes with
  | nil => rfl
  | cons id rest inductionHypothesis =>
      have isKnown := known id List.mem_cons_self
      rw [Pairing.chain_cons, unheld.scopesFor_eq alarm share isKnown.2.2,
        (heap.vacating_fixes adrift scope table).scopes trivial id isKnown,
        inductionHypothesis fun each member => known each (List.mem_cons_of_mem id member)]
      rfl

theorem variables_eq
    (unheld : heap.Unheld scope table adrift) {id : Nat} {inner : Scope}
    (isInner : heap.scopes[id]? = some inner) (kept : ¬ adrift.scopes id) (other : id ≠ scope) :
    inner.vars.rename (heap.vacating scope table) = inner.vars := by
  have within := (unheld.scopes id inner kept isInner).1
  have fixes := heap.vacating_fixes adrift scope table
  obtain ⟨vars, outer⟩ := inner
  cases vars with
  | table own =>
      have different : own ≠ table := by
        rintro rfl
        exact other (unheld.alone id outer kept isInner)
      exact congrArg Variables.table (vacated_of_lt within.1 different)
  | inside holder => exact congrArg Variables.inside (fixes.rename_eq holder within)
  | absent given => exact congrArg Variables.absent (fixes.rename_eq given within)

/-- What the other run has for the scope is the inner one of two. -/
theorem scope_eq
    {outer : List Nat} (isScope : heap.scopes[scope]? = some ⟨.table table, outer⟩) :
    (unheld.pairing alarm share).scope scope ⟨.table table, outer⟩ =
      ⟨.table heap.tables.size, scope :: outer⟩ := by
  have isBehind : (unheld.pairing alarm share).behind scope =
      some ⟨table, scope, table, heap.table table⟩ := if_pos rfl
  have known := (unheld.scopes scope _ unheld.kept isScope).2
  rw [Pairing.scope, isBehind, unheld.chain_eq alarm share known]
  exact congrArg (Scope.mk · (scope :: outer)) (congrArg Variables.table (vacated_self _ _))

/-- Any other scope is the same in both runs. -/
theorem scope_eq_of_ne
    {id : Nat} {inner : Scope} (isInner : heap.scopes[id]? = some inner)
    (kept : ¬ adrift.scopes id) (other : id ≠ scope) :
    (unheld.pairing alarm share).scope id inner = inner := by
  have isBehind : (unheld.pairing alarm share).behind id = none := if_neg other
  rw [Pairing.scope, isBehind,
    unheld.chain_eq alarm share (unheld.scopes id _ kept isInner).2]
  exact congrArg (Scope.mk · inner.outer) (unheld.variables_eq isInner kept other)

/-- A table that is kept is the same in both runs, and the next one comes after the table of
the inner scope. -/
theorem tables_opened
    (unheld : heap.Unheld scope table adrift) (outer : List Nat) {id : Nat} (other : id ≠ table)
    (kept : ¬ adrift.tables id) :
    (heap.opened [] outer).tables[vacated heap.tables.size table id]? =
      heap.tables[id]?.map (List.map (Value.renameEntry (heap.vacating scope table))) := by
  change (heap.tables.push [])[vacated heap.tables.size table id]? = _
  by_cases below : id < heap.tables.size
  · have held := getElem?_tables below
    have fixes := heap.vacating_fixes adrift scope table
    rw [vacated_of_lt below other, getElem?_push_of_some held, held, Option.map_some,
      fixes.map_renameEntry_eq _ (unheld.tables id _ kept held)]
  · obtain ⟨further, rfl⟩ := Nat.exists_eq_add_of_le (Nat.le_of_not_lt below)
    rw [vacated_further unheld.table_lt, Array.getElem?_eq_none (by simp),
      Array.getElem?_eq_none (Nat.le_add_right _ _)]
    rfl

/-- What is set aside is the table of the single scope beside the empty one of the inner scope,
or what is adrift. -/
theorem asides_opened
    (outer : List Nat) {id : Nat} {entries others : ValueEntries}
    (isAside : (unheld.pairing alarm unheld.share).aside id = some (entries, others)) :
    heap.tables[id]? = some entries ∧
      (heap.opened [] outer).tables[vacated heap.tables.size table id]? = some others := by
  change _ ∧ (heap.tables.push [])[vacated heap.tables.size table id]? = _
  by_cases isTable : id = table
  · subst isTable
    cases (unheld.aside_self alarm unheld.share).symm.trans isAside
    rw [vacated_self, Array.getElem?_push_size]
    exact ⟨getElem?_tables unheld.table_lt, rfl⟩
  · by_cases isAdrift : adrift.tables id = true
    · cases (unheld.aside_adrift alarm unheld.share isTable isAdrift).symm.trans isAside
      have held := getElem?_tables ((unheld.there id).2 isAdrift)
      rw [vacated_of_lt ((unheld.there id).2 isAdrift) isTable, getElem?_push_of_some held]
      exact ⟨held, rfl⟩
    · have kept := (unheld.aside_eq_none alarm unheld.share).mpr ⟨isTable, isAdrift⟩
      cases kept.symm.trans isAside

/-- What the other run has for the scope is opened inside it, and all others are the same. -/
theorem scopes_opened
    {outer : List Nat} (isScope : heap.scopes[scope]? = some ⟨.table table, outer⟩) {id : Nat}
    (kept : ¬ adrift.scopes id) :
    (heap.opened [] (scope :: outer)).scopes[vacated heap.scopes.size scope id]? =
      heap.scopes[id]?.map ((unheld.pairing alarm share).scope id) := by
  change (heap.scopes.push ⟨.table heap.tables.size, scope :: outer⟩)[vacated
    heap.scopes.size scope id]? = _
  by_cases isHere : id = scope
  · subst isHere
    rw [vacated_self, Array.getElem?_push_size, isScope, Option.map_some,
      unheld.scope_eq alarm share isScope]
  · by_cases below : id < heap.scopes.size
    · have isInner := Array.getElem?_eq_getElem below
      rw [vacated_of_lt below isHere, getElem?_push_of_some isInner, isInner, Option.map_some,
        unheld.scope_eq_of_ne alarm share isInner kept isHere]
    · obtain ⟨further, rfl⟩ := Nat.exists_eq_add_of_le (Nat.le_of_not_lt below)
      rw [vacated_further unheld.scope_lt, Array.getElem?_eq_none (by simp),
        Array.getElem?_eq_none (Nat.le_add_right _ _)]
      rfl

/-- The heap is like itself with a scope opened inside the one that nothing leads to. -/
theorem like
    {outer : List Nat} (isScope : heap.scopes[scope]? = some ⟨.table table, outer⟩) :
    heap.Like (unheld.pairing alarm unheld.share) (heap.opened [] (scope :: outer)) where
  tables id aside := by
    obtain ⟨other, kept⟩ := (unheld.aside_eq_none alarm unheld.share).mp aside
    exact unheld.tables_opened (scope :: outer) other kept
  asides id entries others isAside := unheld.asides_opened alarm (scope :: outer) isAside
  views := by
    have same : (heap.views.map fun entry =>
        (entry.1, vacated heap.tables.size table entry.2)) = heap.views := by
      refine Settled.map_eq_of_forall fun entry member => Prod.ext rfl ?_
      obtain ⟨known, other⟩ := unheld.views entry member
      exact vacated_of_lt known.1 other
    exact same.symm
  losses := by
    have fixes := heap.vacating_fixes adrift scope table
    have same : (heap.losses.map fun entry =>
        (entry.1, entry.2.map (Value.rename (heap.vacating scope table)))) = heap.losses :=
      Settled.map_eq_of_forall fun entry member => Prod.ext rfl
        (fixes.map_rename_eq entry.2 (unheld.losses entry member))
    exact same.symm
  stores := by
    refine Array.ext_getElem? fun id => ?_
    rw [Array.getElem?_map]
    change heap.stores[id]? = _
    cases isStore : heap.stores[id]? with
    | none => rfl
    | some store =>
        obtain ⟨known, other⟩ := unheld.stores id store isStore
        exact congrArg (fun own => some (Store.mk store.name own))
          (vacated_of_lt known.1 other).symm
  scopes id meets := unheld.scopes_opened alarm unheld.share isScope meets
  closed id inner meets isInner := by
    obtain ⟨varsWithin, outersKnown⟩ := unheld.scopes id inner meets isInner
    refine ⟨fun each member => (outersKnown each member).2.1, fun own isTable => ?_⟩
    rw [isTable] at varsWithin
    exact varsWithin.2
  backed id backing isBehind := by
    obtain ⟨rfl, rfl⟩ := unheld.behind_eq alarm unheld.share isBehind
    exact ⟨⟨outer, isScope⟩, ⟨outer, getElem?_push_of_some isScope _⟩,
      getElem?_push_of_some (getElem?_tables unheld.table_lt) _⟩
  backedOnly id backing other more isBehind meets isOther := by
    obtain ⟨rfl, rfl⟩ := unheld.behind_eq alarm unheld.share isBehind
    exact unheld.alone other more meets isOther
  evaluatorCount := rfl
  configs _ := .inl rfl
  hostDepths _ := .inl rfl
  nextBirth _ := rfl
  nextScope further := (vacated_further unheld.scope_lt further).trans
    (congrArg (· + further) (Array.size_push _).symm)
  nextTable further := (vacated_further unheld.table_lt further).trans
    (congrArg (· + further) (Array.size_push _).symm)
  storesKept id store isStore := by
    obtain ⟨known, other⟩ := unheld.stores id store isStore
    exact (unheld.aside_eq_none alarm unheld.share).mpr ⟨other, known.2⟩
  viewsKept entry member := by
    obtain ⟨known, other⟩ := unheld.views entry member
    exact (unheld.aside_eq_none alarm unheld.share).mpr ⟨other, known.2⟩
  scopesKept id own more isInner out :=
    absurd (Array.getElem?_eq_some_iff.mp isInner).1 (Nat.not_lt.mpr out)
  scopeCount := Nat.le_refl _
  apart := False.elim

/-! ## Variables that are set in both -/

/-- What is kept stays kept whatever the two scopes share. -/
theorem kept_put
    {id : Nat} (kept : (unheld.pairing alarm share).aside id = none) (name : String)
    (value : Value) :
    (unheld.pairing alarm (share.put name value)).aside id = none :=
  (unheld.aside_eq_none alarm _).mpr ((unheld.aside_eq_none alarm share).mp kept)

theorem put_like
    {left right : Heap} (alike : left.Like (unheld.pairing alarm share) right) (name : String)
    (value : Value) :
    (left.setTable table (share.put name value).whole).Like
      (unheld.pairing alarm (share.put name value))
      (right.setTable heap.tables.size (share.put name value).inner) where
  tables id aside := by
    have kept := (unheld.aside_eq_none alarm (share.put name value)).mp aside
    have before := alike.tables id ((unheld.aside_eq_none alarm share).mpr kept)
    have isOther : vacated heap.tables.size table id ≠ heap.tables.size := fun same =>
      kept.1 (vacated_injective _ _ (same.trans (vacated_self _ _).symm))
    change (right.setTable heap.tables.size _).tables[vacated heap.tables.size table id]? = _
    rw [Heap.setTable, Heap.setTable, Array.getElem?_modify, Array.getElem?_modify,
      if_neg (Ne.symm isOther), if_neg (Ne.symm kept.1)]
    exact before
  asides id entries others isAside := by
    change _ ∧ (right.setTable heap.tables.size _).tables[vacated heap.tables.size table id]? = _
    rw [Heap.setTable, Heap.setTable, Array.getElem?_modify, Array.getElem?_modify]
    by_cases isTable : id = table
    · subst isTable
      cases (unheld.aside_self alarm (share.put name value)).symm.trans isAside
      obtain ⟨isLeft, isRight⟩ := alike.asides id _ _ (unheld.aside_self alarm share)
      change right.tables[vacated heap.tables.size id id]? = _ at isRight
      rw [vacated_self] at isRight ⊢
      rw [if_pos rfl, if_pos rfl, isLeft, isRight]
      exact ⟨rfl, rfl⟩
    · have isOther : vacated heap.tables.size table id ≠ heap.tables.size := fun same =>
        isTable (vacated_injective _ _ (same.trans (vacated_self _ _).symm))
      have before : (unheld.pairing alarm share).aside id = some (entries, others) := by
        refine Eq.trans ?_ isAside
        exact (if_neg isTable).trans (if_neg isTable).symm
      rw [if_neg (Ne.symm isOther), if_neg (Ne.symm isTable)]
      exact alike.asides id entries others before
  views := alike.views
  losses := alike.losses
  stores := alike.stores
  scopes := alike.scopes
  closed := alike.closed
  backed id backing isBehind := by
    obtain ⟨isScope, isBackScope, isOwn⟩ := alike.backed id backing isBehind
    refine ⟨isScope, isBackScope, ?_⟩
    obtain ⟨-, rfl⟩ := unheld.behind_eq alarm share isBehind
    rw [Heap.setTable, Array.getElem?_modify, if_neg (Nat.ne_of_gt unheld.table_lt)]
    exact isOwn
  backedOnly := alike.backedOnly
  evaluatorCount := alike.evaluatorCount
  configs := alike.configs
  hostDepths := alike.hostDepths
  nextBirth := alike.nextBirth
  nextScope := alike.nextScope
  nextTable further := by
    rw [Heap.setTable, Heap.setTable, Array.size_modify, Array.size_modify]
    exact alike.nextTable further
  storesKept id store isStore :=
    unheld.kept_put alarm share (alike.storesKept id store isStore) name value
  viewsKept entry member :=
    unheld.kept_put alarm share (alike.viewsKept entry member) name value
  scopesKept id own outer isScope out :=
    unheld.kept_put alarm share (alike.scopesKept id own outer isScope out) name value
  scopeCount := alike.scopeCount
  apart := False.elim

/-- A variable that is set in the single scope and in the inner one of two is shared by
them. -/
theorem define_put
    {left right : Heap} (alike : left.Like (unheld.pairing alarm share) right) (name : String)
    (value : Value) :
    ∃ after later,
      (Action.define scope (.str name) value).perform left = (.ok ⟨⟩, after) ∧
      (Action.define heap.scopes.size (.str name)
        (value.rename (unheld.pairing alarm share).numbers)).perform right = (.ok ⟨⟩, later) ∧
      after.Like (unheld.pairing alarm (share.put name value)) later := by
  obtain ⟨⟨outer, isScope⟩, -⟩ := alike.backed scope _ (if_pos rfl)
  obtain ⟨isLeft, isRight⟩ := alike.asides table _ _ (unheld.aside_self alarm share)
  have isInner : right.scopes[vacated heap.scopes.size scope scope]? = some
      ⟨.table (vacated heap.tables.size table table), _⟩ :=
    (alike.scopes scope unheld.kept).trans (congrArg (Option.map _) isScope)
  have isTable : right.tables[vacated heap.tables.size table table]? = some share.inner := isRight
  rw [vacated_self, vacated_self] at isInner
  rw [vacated_self] at isTable
  have whole : left.table table = share.whole := by
    rw [Heap.table, isLeft]
    rfl
  have inner : right.table heap.tables.size = share.inner := by
    rw [Heap.table, isTable]
    rfl
  refine ⟨_, _, Heap.perform_define_table isScope name value,
    Heap.perform_define_table isInner name _, ?_⟩
  rw [whole, inner]
  exact unheld.put_like alarm share alike name value

end Heap.Unheld

end CueScript
