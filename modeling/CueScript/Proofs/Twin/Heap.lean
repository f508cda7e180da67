import CueScript.Builtin.Access
import CueScript.Proofs.Twin.Text

/-!
# Heaps under other numbers

`Heap.Like` says that the heap of a right run holds what that of a left run holds, under
the numbers of the right run, and that both give out their next numbers in step.  A few
tables can be set aside: each run holds its own entries there, and they are alike only
for the names that may be looked up.

What is asked of two heaps that are alike has the same answer, and what is done to both
keeps them alike.
-/

namespace CueScript

/-- The variables of a scope under other numbers. -/
def Variables.rename (ρ : Renaming) : Variables → Variables
  | table id => .table (ρ.tables id)
  | inside holder => .inside (holder.rename ρ)
  | absent given => .absent (given.rename ρ)

/-- A scope under other numbers. -/
def Scope.rename (ρ : Renaming) (scope : Scope) : Scope :=
  ⟨scope.vars.rename ρ, scope.outer.map ρ.scopes⟩

/-- A store under other numbers. -/
def Store.renumber (ρ : Renaming) (store : Store) : Store :=
  ⟨store.name, ρ.tables store.table⟩

/-- A scope of the right run that stands directly behind another one, where the left run
has a single scope for both. -/
structure Backing where
  /-- The table of the single scope. -/
  table : Nat
  /-- The scope behind, in the right run. -/
  scope : Nat
  /-- Its table. -/
  own : Nat
  /-- What it holds. -/
  entries : ValueEntries

/-- Scopes that nothing leads to any more, and tables that only they have. -/
structure Adrift where
  scopes : Nat → Bool
  tables : Nat → Bool

/-- Everything may be led to. -/
def Adrift.none : Adrift := ⟨fun _ => false, fun _ => false⟩

theorem Adrift.none_behind :
    ∀ id, Adrift.none.scopes id ∨ Adrift.none.tables id →
      ∃ other backing, (fun _ => Option.none : Nat → Option Backing) other = some backing :=
  fun _ isAdrift => (isAdrift.elim Bool.false_ne_true Bool.false_ne_true).elim

theorem Adrift.none_old : ∀ id, Adrift.none.scopes id → id < 0 :=
  fun _ isAdrift => (Bool.false_ne_true isAdrift).elim

theorem Adrift.none_scopes (heap : Heap) : ∀ id, Adrift.none.scopes id → id < heap.scopes.size :=
  fun _ isAdrift => (Bool.false_ne_true isAdrift).elim

theorem Adrift.none_aside :
    ∀ table, Adrift.none.tables table →
      (fun _ => Option.none : Nat → Option (ValueEntries × ValueEntries)) table ≠ Option.none :=
  fun _ isAdrift => (Bool.false_ne_true isAdrift).elim

/-- How two runs, the left and the right one, stand to each other. -/
structure Pairing where
  /-- The numbers that the right run has for those of the left one. -/
  numbers : Renaming
  /-- Whether the right run may be nested deeper and therefore end at a limit. -/
  slack : Prop
  /-- Whether the limits of the right run may be lower. -/
  lowered : Prop := False
  lowers : lowered → slack := by exact False.elim
  /-- Whether the runs keep to heaps that are apart (`Heap.Apart`). -/
  apart : Prop := False
  /-- The tables that are set aside, with what they hold in the left and in the right
  run. -/
  aside : Nat → Option (ValueEntries × ValueEntries)
  /-- The names that may be looked up where tables are set aside. -/
  spoken : String → Prop
  /-- What stands behind the scope that the right run has for a scope of the left one. -/
  behind : Nat → Option Backing := fun _ => none
  /-- The scopes that nothing leads to any more, of which nothing is said. -/
  adrift : Adrift := .none
  alike : ∀ table entries others, aside table = some (entries, others) →
    (∀ id backing, behind id = some backing → backing.table ≠ table) → ¬ adrift.tables table →
    ∀ name, spoken name → ValueEntries.get? others (.str name) =
      (ValueEntries.get? entries (.str name)).map (Option.map (Value.rename numbers))
  /-- A scope with one behind it and the single scope are alike together. -/
  joint : ∀ id backing, behind id = some backing →
    (∀ table, numbers.tables table ≠ backing.own) ∧
    ∃ entries others, aside backing.table = some (entries, others) ∧
      ∀ name, spoken name →
        (Entries.find? Value.sameKey (.str name) others).or
            (Entries.find? Value.sameKey (.str name) backing.entries) =
          (Entries.find? Value.sameKey (.str name) entries).map (Value.rename numbers) := by
    exact fun _ _ isBehind => nomatch isBehind
  /-- Scopes from this one on have no variables in a table that is set aside. -/
  ownScopes : Nat
  /-- There are scopes that nothing leads to only beside one with another behind it. -/
  adriftBehind : ∀ id, adrift.scopes id ∨ adrift.tables id →
    ∃ other backing, behind other = some backing := by
    exact Adrift.none_behind
  adriftOld : ∀ id, adrift.scopes id → id < ownScopes := by
    first
    | exact Adrift.none_old
    | exact Adrift.none_scopes _
    | exact fun _ isAdrift => nomatch isAdrift
  adriftAside : ∀ table, adrift.tables table → aside table ≠ none := by
    first
    | exact Adrift.none_aside
    | exact fun _ isAdrift => nomatch isAdrift
  /-- The fault with which the left run stops where nothing is said of it. -/
  alarm : Fault

namespace Pairing

variable (pairing : Pairing)

/-- No table is set aside. -/
def Tight : Prop := ∀ table, pairing.aside table = none

/-- No scope stands behind another one. -/
def Unbacked : Prop := ∀ id, pairing.behind id = none

/-- The scopes of the right run for one of the left run. -/
def scopesFor (id : Nat) : List Nat :=
  pairing.numbers.scopes id :: ((pairing.behind id).map Backing.scope).toList

/-- The scopes of the right run for a chain of scopes of the left run. -/
def chain (scopes : List Nat) : List Nat := scopes.flatMap pairing.scopesFor

/-- What the right run has for a scope of the left one. -/
def scope (id : Nat) (scope : Scope) : Scope :=
  ⟨scope.vars.rename pairing.numbers,
    ((pairing.behind id).map Backing.scope).toList ++ pairing.chain scope.outer⟩

/-- Whether something may lead to a scope. -/
def Meets (id : Nat) : Prop := ¬ pairing.adrift.scopes id

/-- Whether a variable can be looked up. -/
def Speaks (key : Value) : Prop :=
  pairing.Tight ∨ ∃ name, key = .str name ∧ pairing.spoken name

/-- Whether the variables of a scope can be set. -/
def Owns (scope : Nat) : Prop := pairing.Tight ∨ pairing.ownScopes ≤ scope

/-- Whether scopes may be used as values. -/
def Open : Prop := pairing.Tight ∧ ¬ pairing.apart

/-- Whether a member of a value may be read. -/
def Shows (value : Value) (name : String) : Prop :=
  match value with
  | .store _ => pairing.apart → name ≠ "_data"
  | .scope _ => (pairing.Open ∨ name ≠ "vars") ∧ (pairing.Unbacked ∨ name ≠ "parent")
  | .closure _ _ _ _ _ inside _ => pairing.Meets inside ∨ name ≠ "env"
  | .evaluator _ => pairing.lowered → name ≠ "config"
  | _ => True

/-- The settings of an evaluator in the left and the right run. -/
def Settings (config other : Config) : Prop :=
  other = config ∨ pairing.lowered ∧ other.maxDepth ≤ config.maxDepth

/-- How deep the left and the right run can be nested at the same time. -/
def Levels (depth deeper : Int) : Prop := depth = deeper ∨ pairing.slack ∧ depth ≤ deeper

/-- Whether the right run may be nested deeper under the same limits. -/
def Deeper : Prop := pairing.slack ∧ ¬ pairing.lowered

theorem levels_refl (depth : Int) : pairing.Levels depth depth := .inl rfl

variable {pairing}

theorem shows_of_plain
    {name : String} (plain : name ∉ ["_data", "vars", "parent", "config", "env"])
    (value : Value) :
    pairing.Shows value name := by
  simp only [List.mem_cons, List.not_mem_nil, or_false, not_or] at plain
  obtain ⟨notData, notVars, notParent, notConfig, notEnv⟩ := plain
  cases value with
  | store id => exact fun _ => notData
  | scope id => exact ⟨.inr notVars, .inr notParent⟩
  | evaluator id => exact fun _ => notConfig
  | closure id name params rest body inside owner => exact .inr notEnv
  | _ => exact trivial

@[simp]
theorem chain_nil : pairing.chain [] = [] := rfl

@[simp]
theorem chain_cons (id : Nat) (rest : List Nat) :
    pairing.chain (id :: rest) = pairing.scopesFor id ++ pairing.chain rest :=
  List.flatMap_cons

/-- Where no table is set aside, no scope stands behind another one. -/
theorem Tight.unbacked (tight : pairing.Tight) : pairing.Unbacked := by
  intro id
  cases isBehind : pairing.behind id with
  | none => rfl
  | some backing =>
      obtain ⟨-, entries, others, isAside, -⟩ := pairing.joint id backing isBehind
      rw [tight] at isAside
      cases isAside

/-- Where no scope stands behind another one, something may lead to all of them. -/
theorem Unbacked.not_adrift (unbacked : pairing.Unbacked) (id : Nat) :
    ¬ (pairing.adrift.scopes id ∨ pairing.adrift.tables id) := by
  intro isAdrift
  obtain ⟨other, backing, isBehind⟩ := pairing.adriftBehind id isAdrift
  rw [unbacked] at isBehind
  cases isBehind

theorem Unbacked.meets (unbacked : pairing.Unbacked) (id : Nat) : pairing.Meets id :=
  fun isAdrift => unbacked.not_adrift id (.inl isAdrift)

theorem Unbacked.closed
    (unbacked : pairing.Unbacked) (inner : Scope) :
    (∀ outer ∈ inner.outer, pairing.Meets outer) ∧
      ∀ table, inner.vars = .table table → ¬ pairing.adrift.tables table :=
  ⟨fun outer _ => unbacked.meets outer, fun table _ isAdrift =>
    unbacked.not_adrift table (.inr isAdrift)⟩

/-- Something may lead to a scope whose variables can be set. -/
theorem Owns.meets {id : Nat} (owns : pairing.Owns id) : pairing.Meets id := by
  rcases owns with tight | own
  · exact tight.unbacked.meets id
  · exact fun isAdrift => Nat.not_lt.mpr own (pairing.adriftOld id isAdrift)

theorem Unbacked.scopesFor_eq (unbacked : pairing.Unbacked) (id : Nat) :
    pairing.scopesFor id = [pairing.numbers.scopes id] := by
  rw [scopesFor, unbacked id]
  rfl

theorem Unbacked.chain_eq (unbacked : pairing.Unbacked) (scopes : List Nat) :
    pairing.chain scopes = scopes.map pairing.numbers.scopes := by
  induction scopes with
  | nil => rfl
  | cons id rest inductionHypothesis =>
      rw [chain_cons, unbacked.scopesFor_eq, inductionHypothesis, List.map_cons,
        List.singleton_append]

/-- Where no scope stands behind another one, scopes only have other numbers. -/
theorem Unbacked.scope_eq (unbacked : pairing.Unbacked) (id : Nat) :
    pairing.scope id = Scope.rename pairing.numbers := by
  funext inner
  rw [scope, unbacked id, unbacked.chain_eq]
  rfl

theorem Levels.add
    {depth deeper : Int} (levels : pairing.Levels depth deeper) (more : Int) :
    pairing.Levels (depth + more) (deeper + more) := by
  rcases levels with rfl | ⟨slack, le⟩
  · exact .inl rfl
  · exact .inr ⟨slack, Int.add_le_add_right le more⟩

theorem Levels.le
    {depth deeper : Int} (levels : pairing.Levels depth deeper) : depth ≤ deeper := by
  rcases levels with rfl | ⟨-, le⟩
  · exact Int.le_refl depth
  · exact le

end Pairing

/-- Whether no map is a view, no two stores have one table, and every scope has its
variables in a table that no store has; and whether nothing is kept of lists without a
number. -/
structure Heap.Apart (heap : Heap) : Prop where
  views : heap.views = []
  unnumbered : heap.left? 0 = none
  stores : ∀ (id : Nat) (store : Store), heap.stores[id]? = some store →
    store.table < heap.tables.size
  owners : ∀ (id other : Nat) (store another : Store), heap.stores[id]? = some store →
    heap.stores[other]? = some another → store.table = another.table → id = other
  scopes : ∀ (id : Nat) (scope : Scope), heap.scopes[id]? = some scope →
    ∃ table, scope.vars = .table table ∧ table < heap.tables.size ∧
      ∀ (other : Nat) (store : Store), heap.stores[other]? = some store → store.table ≠ table

/-- Whether a right heap holds what a left heap does. -/
structure Heap.Like (pairing : Pairing) (left right : Heap) : Prop where
  tables : ∀ id, pairing.aside id = none →
    right.tables[pairing.numbers.tables id]? =
      left.tables[id]?.map (List.map (Value.renameEntry pairing.numbers))
  asides : ∀ id entries others, pairing.aside id = some (entries, others) →
    left.tables[id]? = some entries ∧
      right.tables[pairing.numbers.tables id]? = some others
  views : right.views = left.views.map fun entry =>
    (pairing.numbers.births entry.1, pairing.numbers.tables entry.2)
  losses : right.losses = left.losses.map fun entry =>
    (pairing.numbers.births entry.1, entry.2.map (Value.rename pairing.numbers))
  stores : right.stores = left.stores.map (Store.renumber pairing.numbers)
  scopes : ∀ id, pairing.Meets id → right.scopes[pairing.numbers.scopes id]? =
    left.scopes[id]?.map (pairing.scope id)
  /-- What something may lead to leads only to that. -/
  closed : ∀ id inner, pairing.Meets id → left.scopes[id]? = some inner →
    (∀ outer ∈ inner.outer, pairing.Meets outer) ∧
      ∀ table, inner.vars = .table table → ¬ pairing.adrift.tables table
  /-- A scope is behind only where the left run has a scope, the only one with its table. -/
  backed : ∀ id backing, pairing.behind id = some backing →
    (∃ outer, left.scopes[id]? = some ⟨.table backing.table, outer⟩) ∧
    (∃ outer, right.scopes[backing.scope]? = some ⟨.table backing.own, outer⟩) ∧
    right.tables[backing.own]? = some backing.entries
  backedOnly : ∀ id backing other outer, pairing.behind id = some backing →
    pairing.Meets other → left.scopes[other]? = some ⟨.table backing.table, outer⟩ → other = id
  evaluatorCount : right.evaluators.size = left.evaluators.size
  configs : ∀ id, pairing.Settings (left.config id) (right.config id)
  hostDepths : ∀ id, pairing.Levels (left.hostDepth id) (right.hostDepth id)
  nextBirth : ∀ further, pairing.numbers.births (left.births + further) =
    right.births + further
  nextScope : ∀ further, pairing.numbers.scopes (left.scopes.size + further) =
    right.scopes.size + further
  nextTable : ∀ further, pairing.numbers.tables (left.tables.size + further) =
    right.tables.size + further
  storesKept : ∀ (id : Nat) (store : Store), left.stores[id]? = some store →
    pairing.aside store.table = none
  viewsKept : ∀ entry ∈ left.views, pairing.aside entry.2 = none
  scopesKept : ∀ id table outer, left.scopes[id]? = some ⟨.table table, outer⟩ →
    pairing.ownScopes ≤ id → pairing.aside table = none
  scopeCount : pairing.ownScopes ≤ left.scopes.size
  apart : pairing.apart → left.Apart

namespace Entries

variable {α β : Type}

theorem find_map
    {f : Nat → Nat} (injective : Function.Injective f) (g : α → β) (key : Nat)
    (entries : Entries Nat α) :
    find? (· == ·) (f key) (entries.map fun entry => (f entry.1, g entry.2)) =
      (find? (· == ·) key entries).map g := by
  induction entries with
  | nil => rfl
  | cons entry rest inductionHypothesis =>
      obtain ⟨stored, value⟩ := entry
      by_cases same : stored = key
      · simp [find?, same]
      · have different : f stored ≠ f key := fun equal => same (injective equal)
        simpa [find?, same, different] using inductionHypothesis

theorem put_map
    {f : Nat → Nat} (injective : Function.Injective f) (g : α → β) (key : Nat) (value : α)
    (entries : Entries Nat α) :
    put (· == ·) (f key) (g value) (entries.map fun entry => (f entry.1, g entry.2)) =
      (put (· == ·) key value entries).map fun entry => (f entry.1, g entry.2) := by
  induction entries with
  | nil => rfl
  | cons entry rest inductionHypothesis =>
      obtain ⟨stored, old⟩ := entry
      by_cases same : stored = key
      · simp [put, same]
      · have different : f stored ≠ f key := fun equal => same (injective equal)
        simpa [put, same, different] using inductionHypothesis

end Entries

/-! ## Values as they are now -/

/-- Whether lists and maps hold the same under other numbers. -/
structure Holdings.Like (ρ : Renaming) (left right : Holdings) : Prop where
  items : ∀ birth, right.items (ρ.births birth) =
    (left.items birth).map (List.map (Value.rename ρ))
  entries : ∀ birth, right.entries (ρ.births birth) =
    (left.entries birth).map (List.map (Value.renameEntry ρ))

namespace Value

variable {ρ : Renaming} {left right : Holdings}

mutual

theorem current_rename (like : left.Like ρ right) (value : Value) :
    (value.rename ρ).current right = (value.current left).rename ρ := by
  cases value with
  | list items birth =>
      rw [rename_list, current, current, like.items]
      cases left.items birth with
      | none => simp [currentItems_rename like items]
      | some held => simp
  | vector items birth =>
      rw [rename_vector, current, current, like.items]
      cases left.items birth with
      | none => simp [currentItems_rename like items]
      | some held => simp
  | map entries birth =>
      rw [rename_map, current, current, like.entries]
      cases left.entries birth with
      | none => simp [currentEntries_rename like entries]
      | some held => simp
  | quoted form => simp [current, current_rename like form]
  | tuple items => simp [current, currentItems_rename like items]
  | event id origin members => simp [current, currentMembers_rename like members]
  | method id result => simp [current, current_rename like result]
  | member receiver name => simp [current, current_rename like receiver]
  | _ => simp [current]

theorem currentItems_rename (like : left.Like ρ right) (items : List Value) :
    currentItems right (items.map (rename ρ)) =
      (currentItems left items).map (rename ρ) := by
  cases items with
  | nil => rfl
  | cons item rest =>
      rw [List.map_cons, currentItems, currentItems, current_rename like item,
        currentItems_rename like rest, List.map_cons]

theorem currentEntries_rename (like : left.Like ρ right) (entries : List (Value × Value)) :
    currentEntries right (entries.map (renameEntry ρ)) =
      (currentEntries left entries).map (renameEntry ρ) := by
  cases entries with
  | nil => rfl
  | cons entry rest =>
      rw [List.map_cons, currentEntries, currentEntries, currentEntry_rename like entry,
        currentEntries_rename like rest, List.map_cons]

theorem currentEntry_rename (like : left.Like ρ right) (entry : Value × Value) :
    currentEntry right (renameEntry ρ entry) = renameEntry ρ (currentEntry left entry) := by
  cases entry with
  | mk key value =>
      rw [renameEntry_mk, currentEntry, currentEntry, current_rename like key,
        current_rename like value, renameEntry_mk]

theorem currentMembers_rename (like : left.Like ρ right) (members : List (String × Value)) :
    currentMembers right (members.map (renameMember ρ)) =
      (currentMembers left members).map (renameMember ρ) := by
  cases members with
  | nil => rfl
  | cons first rest =>
      rw [List.map_cons, currentMembers, currentMembers, currentMember_rename like first,
        currentMembers_rename like rest, List.map_cons]

theorem currentMember_rename (like : left.Like ρ right) (first : String × Value) :
    currentMember right (renameMember ρ first) = renameMember ρ (currentMember left first) := by
  cases first with
  | mk name value =>
      rw [renameMember_mk, currentMember, currentMember, current_rename like value,
        renameMember_mk]

end

end Value

/-- A name is looked up in a table, and where it is not there in the scopes that follow. -/
theorem Heap.firstValueIn_table
    {heap : Heap} {id table : Nat} {outer rest : List Nat} {name : String}
    (isScope : heap.scopes[id]? = some ⟨.table table, outer⟩) :
    heap.firstValueIn? (.str name) (id :: rest) =
      match Entries.find? Value.sameKey (.str name) (heap.table table) with
      | some value => .ok (some value)
      | none => heap.firstValueIn? (.str name) rest := by
  rw [Heap.firstValueIn?, isScope]
  have isFound : heap.valueIn? (.table table) (.str name) =
      .ok (Entries.find? Value.sameKey (.str name) (heap.table table)) := rfl
  simp only [isFound]
  cases Entries.find? Value.sameKey (.str name) (heap.table table) <;> rfl

namespace Heap.Like

variable {pairing : Pairing} {left right : Heap}

/-! ## What is asked of heaps -/

theorem table
    (like : Like pairing left right) {id : Nat} (kept : pairing.aside id = none) :
    right.table (pairing.numbers.tables id) =
      (left.table id).map (Value.renameEntry pairing.numbers) := by
  rw [Heap.table, Heap.table, like.tables id kept]
  cases left.tables[id]? <;> rfl

theorem viewed (like : Like pairing left right) (birth : Nat) :
    right.viewed? (pairing.numbers.births birth) =
      (left.viewed? birth).map pairing.numbers.tables := by
  rw [Heap.viewed?, Heap.viewed?, like.views]
  exact Entries.find_map pairing.numbers.births_injective pairing.numbers.tables birth left.views

theorem viewed_kept
    (like : Like pairing left right) {birth table : Nat}
    (isView : left.viewed? birth = some table) :
    pairing.aside table = none := by
  have member : ∃ entry ∈ left.views, entry.2 = table := by
    unfold Heap.viewed? at isView
    generalize left.views = views at isView
    induction views with
    | nil => cases isView
    | cons entry rest inductionHypothesis =>
        obtain ⟨stored, found⟩ := entry
        rw [Entries.find?] at isView
        split at isView
        · cases isView
          exact ⟨_, List.mem_cons_self, rfl⟩
        · obtain ⟨each, member, same⟩ := inductionHypothesis isView
          exact ⟨each, List.mem_cons_of_mem _ member, same⟩
  obtain ⟨entry, member, rfl⟩ := member
  exact like.viewsKept entry member

theorem left_items (like : Like pairing left right) (birth : Nat) :
    right.left? (pairing.numbers.births birth) =
      (left.left? birth).map (List.map (Value.rename pairing.numbers)) := by
  rw [Heap.left?, Heap.left?, like.losses]
  exact Entries.find_map pairing.numbers.births_injective
    (List.map (Value.rename pairing.numbers)) birth left.losses

theorem isUnchanged (like : Like pairing left right) :
    right.isUnchanged = left.isUnchanged := by
  rw [Heap.isUnchanged, Heap.isUnchanged, like.views, like.losses, List.isEmpty_map,
    List.isEmpty_map]

theorem holdings (like : Like pairing left right) (budget : Nat) (path : List Nat) :
    (left.holdings budget path).Like pairing.numbers
      (right.holdings budget (path.map pairing.numbers.births)) := by
  induction budget generalizing path with
  | zero => exact ⟨fun _ => rfl, fun _ => rfl⟩
  | succ budget inductionHypothesis =>
      constructor
      · intro birth
        simp only [Heap.holdings, like.left_items]
        cases left.left? birth with
        | none => rfl
        | some held =>
            simp only [Option.map_some, Option.some.injEq]
            exact Value.currentItems_rename (inductionHypothesis path) held
      · intro birth
        simp only [Heap.holdings, like.viewed]
        cases isView : left.viewed? birth with
        | none => rfl
        | some table =>
            have onPath : pairing.numbers.births birth ∈ path.map pairing.numbers.births ↔
                birth ∈ path := by
              refine ⟨fun member => ?_, List.mem_map_of_mem⟩
              obtain ⟨other, isOther, same⟩ := List.mem_map.mp member
              exact pairing.numbers.births_injective same ▸ isOther
            simp only [Option.map_some, onPath, like.table (like.viewed_kept isView)]
            split
            · rfl
            · have inner := inductionHypothesis (birth :: path)
              rw [List.map_cons] at inner
              rw [Value.currentEntries_rename inner]

theorem present (like : Like pairing left right) :
    left.present.Like pairing.numbers right.present := by
  have inner := like.holdings ((left.views.length + 1) * (left.losses.length + 1)) []
  rw [Heap.present, Heap.present, like.views, like.losses, List.length_map, List.length_map]
  exact inner

theorem current (like : Like pairing left right) (value : Value) :
    right.current (value.rename pairing.numbers) =
      (left.current value).rename pairing.numbers := by
  rw [Heap.current, Heap.current, like.isUnchanged]
  split
  · rfl
  · exact Value.current_rename like.present value

theorem currentItems (like : Like pairing left right) (items : List Value) :
    right.currentItems (items.map (Value.rename pairing.numbers)) =
      (left.currentItems items).map (Value.rename pairing.numbers) := by
  rw [Heap.currentItems, Heap.currentItems, like.isUnchanged]
  split
  · rfl
  · exact Value.currentItems_rename like.present items

theorem store (like : Like pairing left right) (id : Nat) :
    right.stores[id]? = left.stores[id]?.map (Store.renumber pairing.numbers) := by
  rw [like.stores, Array.getElem?_map]

theorem entries (like : Like pairing left right) (id : Nat) :
    right.entries id = (left.entries id).map (Value.renameEntry pairing.numbers) := by
  unfold Heap.entries
  rw [like.store]
  cases isStore : left.stores[id]? with
  | none => rfl
  | some store =>
      simp only [Option.map_some, Store.renumber, like.isUnchanged,
        like.table (like.storesKept id store isStore)]
      split
      · rfl
      · exact Value.currentEntries_rename like.present _

theorem storeName (like : Like pairing left right) (id : Nat) :
    right.storeName id = left.storeName id := by
  rw [Heap.storeName, Heap.storeName, like.store]
  cases left.stores[id]? <;> rfl

theorem scopeValue (like : Like pairing left right) {id : Nat} (meets : pairing.Meets id) :
    right.scopeValue (pairing.numbers.scopes id) =
      (left.scopeValue id).rename pairing.numbers := by
  rw [Heap.scopeValue, Heap.scopeValue, like.scopes id meets]
  cases left.scopes[id]? with
  | none => rfl
  | some scope =>
      obtain ⟨vars, outer⟩ := scope
      cases vars <;> rfl

theorem canOpenInside
    (like : Like pairing left right) {parent : Nat} (meets : pairing.Meets parent) :
    right.canOpenInside (pairing.numbers.scopes parent) = left.canOpenInside parent := by
  rw [Heap.canOpenInside, Heap.canOpenInside, like.scopes parent meets]
  cases left.scopes[parent]? with
  | none => rfl
  | some scope =>
      obtain ⟨vars, outer⟩ := scope
      cases vars <;> rfl

theorem maxDepth_le (like : Like pairing left right) (id : Nat) :
    right.maxDepth id = left.maxDepth id ∨
      pairing.lowered ∧ right.maxDepth id ≤ left.maxDepth id := by
  rcases like.configs id with same | lower
  · exact .inl (congrArg Config.maxDepth same)
  · exact .inr lower

theorem hasChangedSize (like : Like pairing left right) (birth size : Nat) :
    Access.hasChangedSize right (pairing.numbers.births birth) size =
      Access.hasChangedSize left birth size := by
  rw [Access.hasChangedSize, Access.hasChangedSize, like.viewed]
  cases isView : left.viewed? birth with
  | none => rfl
  | some table =>
      simp only [Option.map_some, like.table (like.viewed_kept isView), List.length_map]

/-! ## Variables -/

theorem valueIn
    (like : Like pairing left right) {key : Value} (speaks : pairing.Speaks key)
    {vars : Variables}
    (single : ∀ table, vars = .table table →
      (∀ id backing, pairing.behind id = some backing → backing.table ≠ table) ∧
        ¬ pairing.adrift.tables table) :
    right.valueIn? (vars.rename pairing.numbers) (key.rename pairing.numbers) =
      (left.valueIn? vars key).map (Option.map (Value.rename pairing.numbers)) := by
  cases vars with
  | table id =>
      cases isAside : pairing.aside id with
      | none =>
          simp only [Variables.rename, Heap.valueIn?, like.table isAside, Value.get_rename]
      | some held =>
          obtain ⟨entries, others⟩ := held
          rcases speaks with tight | ⟨name, rfl, isSpoken⟩
          · rw [tight id] at isAside
            cases isAside
          · obtain ⟨isLeft, isRight⟩ := like.asides id entries others isAside
            simp only [Variables.rename, Heap.valueIn?, Heap.table, isLeft, isRight,
              Value.rename_str, Option.getD_some]
            exact pairing.alike id entries others isAside (single id rfl).1 (single id rfl).2 name
              isSpoken
  | inside holder =>
      cases holder with
      | store id =>
          simp only [Variables.rename, Value.rename_store, Heap.valueIn?, like.entries,
            Value.get_rename]
      | _ =>
          simp [Variables.rename, Heap.valueIn?, throw, throwThe, MonadExceptOf.throw, Except.map]
  | absent given => rfl

/-- A name is looked up in two scopes as in the single one that they stand for. -/
theorem firstValueIn_backed
    (like : Like pairing left right) {id : Nat} {backing : Backing}
    (isBehind : pairing.behind id = some backing) (meets : pairing.Meets id) {key : Value}
    (speaks : pairing.Speaks key) {rest : List Nat} {others : List Nat}
    (further : right.firstValueIn? (key.rename pairing.numbers) others =
      (left.firstValueIn? key rest).map (Option.map (Value.rename pairing.numbers))) :
    right.firstValueIn? (key.rename pairing.numbers)
        (pairing.numbers.scopes id :: backing.scope :: others) =
      (left.firstValueIn? key (id :: rest)).map (Option.map (Value.rename pairing.numbers)) := by
  obtain ⟨⟨outer, isScope⟩, ⟨outside, isBackScope⟩, isOwn⟩ := like.backed id backing isBehind
  obtain ⟨-, entries, front, isAside, together⟩ := pairing.joint id backing isBehind
  obtain ⟨isLeft, isRight⟩ := like.asides _ entries front isAside
  rcases speaks with tight | ⟨name, rfl, isSpoken⟩
  · rw [tight] at isAside
    cases isAside
  · have frontScope : right.scopes[pairing.numbers.scopes id]? = some
        ⟨.table (pairing.numbers.tables backing.table),
          (pairing.scope id ⟨.table backing.table, outer⟩).outer⟩ := by
      rw [like.scopes id meets, isScope]
      rfl
    have held : left.table backing.table = entries := by
      rw [Heap.table, isLeft, Option.getD_some]
    have heldFront : right.table (pairing.numbers.tables backing.table) = front := by
      rw [Heap.table, isRight, Option.getD_some]
    have heldOwn : right.table backing.own = backing.entries := by
      rw [Heap.table, isOwn, Option.getD_some]
    have both := together name isSpoken
    rw [Value.rename_str] at further ⊢
    rw [firstValueIn_table frontScope, firstValueIn_table isBackScope, firstValueIn_table isScope,
      held, heldFront, heldOwn, further]
    cases inFront : Entries.find? Value.sameKey (.str name) front with
    | some value =>
        rw [inFront, Option.some_or] at both
        obtain ⟨original, isFound, rfl⟩ := Option.map_eq_some_iff.mp both.symm
        rw [isFound]
        rfl
    | none =>
        rw [inFront, Option.none_or] at both
        rw [both]
        cases Entries.find? Value.sameKey (.str name) entries with
        | none => rfl
        | some value => rfl

theorem firstValueIn
    (like : Like pairing left right) {key : Value} (speaks : pairing.Speaks key)
    {scopes : List Nat} (meet : ∀ id ∈ scopes, pairing.Meets id) :
    right.firstValueIn? (key.rename pairing.numbers) (pairing.chain scopes) =
      (left.firstValueIn? key scopes).map (Option.map (Value.rename pairing.numbers)) := by
  induction scopes with
  | nil => rfl
  | cons id rest inductionHypothesis =>
      have meets := meet id List.mem_cons_self
      have further := inductionHypothesis
        fun each member => meet each (List.mem_cons_of_mem id member)
      rw [pairing.chain_cons, Pairing.scopesFor]
      cases isBehind : pairing.behind id with
      | some backing => exact like.firstValueIn_backed isBehind meets speaks further
      | none =>
          simp only [Option.map_none, Option.toList_none, List.singleton_append,
            Heap.firstValueIn?, like.scopes id meets]
          cases isScope : left.scopes[id]? with
          | none => exact further
          | some scope =>
              have single : ∀ table, scope.vars = .table table →
                  (∀ other backing, pairing.behind other = some backing →
                    backing.table ≠ table) ∧ ¬ pairing.adrift.tables table := by
                intro table isTable
                refine ⟨?_, (like.closed id scope meets isScope).2 table isTable⟩
                rintro other backing isBacked rfl
                obtain rfl := like.backedOnly other backing id scope.outer isBacked meets
                  (isTable ▸ isScope)
                rw [isBehind] at isBacked
                cases isBacked
              simp only [Option.map_some, Pairing.scope, like.valueIn speaks single]
              cases left.valueIn? scope.vars key with
              | error failure => rfl
              | ok found =>
                  cases found with
                  | none => exact further
                  | some value => rfl

theorem lookup
    (like : Like pairing left right) {key : Value} (speaks : pairing.Speaks key)
    {scope : Nat} (meets : pairing.Meets scope) :
    right.lookup? (pairing.numbers.scopes scope) (key.rename pairing.numbers) =
      (left.lookup? scope key).map (Option.map (Value.rename pairing.numbers)) := by
  unfold Heap.lookup?
  rw [like.scopes scope meets]
  cases isScope : left.scopes[scope]? with
  | none => rfl
  | some inner =>
      have meet : ∀ id ∈ scope :: inner.outer, pairing.Meets id := by
        intro id member
        rcases List.mem_cons.mp member with rfl | member
        · exact meets
        · exact (like.closed scope inner meets isScope).1 id member
      exact like.firstValueIn speaks meet

theorem defined
    (like : Like pairing left right) {scope : Nat} (owns : pairing.Owns scope)
    (key value : Value) :
    right.defined (pairing.numbers.scopes scope) (key.rename pairing.numbers)
        (value.rename pairing.numbers) =
      (left.defined scope key value).map fun revised =>
        (pairing.numbers.tables revised.1,
          revised.2.map (Value.renameEntry pairing.numbers)) := by
  unfold Heap.defined
  rw [like.scopes scope owns.meets]
  cases isScope : left.scopes[scope]? with
  | none => rfl
  | some inner =>
      obtain ⟨vars, outer⟩ := inner
      cases vars with
      | table id =>
          have kept : pairing.aside id = none := by
            rcases owns with tight | own
            · exact tight id
            · exact like.scopesKept scope id outer isScope own
          simp only [Option.map_some, Pairing.scope, Variables.rename, like.table kept,
            Value.put_entries_rename]
          cases ValueEntries.put (left.table id) key value <;> rfl
      | inside holder => rfl
      | absent given => rfl

/-- Only a table that is not set aside gets a variable. -/
theorem defined_kept
    (like : Like pairing left right) {scope table : Nat} (owns : pairing.Owns scope)
    {key value : Value} {entries : ValueEntries}
    (isDefined : left.defined scope key value = .ok (table, entries)) :
    pairing.aside table = none := by
  unfold Heap.defined at isDefined
  split at isDefined
  · rename_i id outer isScope
    cases revised : ValueEntries.put (left.table id) key value with
    | error failure =>
        rw [revised] at isDefined
        cases isDefined
    | ok found =>
        rw [revised] at isDefined
        cases isDefined
        rcases owns with tight | own
        · exact tight _
        · exact like.scopesKept scope _ outer isScope own
  · cases isDefined

/-! ## Texts -/

theorem showStore (like : Like pairing left right) (budget : Nat) (path : List Enclosure)
    (id : Nat) :
    right.showStore budget (path.map (Enclosure.rename pairing.numbers)) id =
      left.showStore budget path id := by
  induction budget generalizing path id with
  | zero => rfl
  | succ budget inductionHypothesis =>
      have sameFront : (path.map (Enclosure.rename pairing.numbers)).takeWhile
            Enclosure.isStore =
          (path.takeWhile Enclosure.isStore).map (Enclosure.rename pairing.numbers) := by
        rw [List.takeWhile_map]
        congr 2
        funext each
        exact Enclosure.isStore_rename pairing.numbers each
      have onPath : Enclosure.store id ∈
            (path.map (Enclosure.rename pairing.numbers)).takeWhile Enclosure.isStore ↔
          Enclosure.store id ∈ path.takeWhile Enclosure.isStore := by
        rw [sameFront]
        exact Enclosure.mem_map_rename pairing.numbers (.store id) _
      have texts := Value.shownEntries_rename pairing.numbers inductionHypothesis
        (.store id :: path) (left.entries id)
      rw [List.map_cons, Enclosure.rename] at texts
      simp only [Heap.showStore, onPath, like.entries, like.storeName, texts]

theorem showAnyStore (like : Like pairing left right) (path : List Enclosure) (id : Nat) :
    right.showAnyStore (path.map (Enclosure.rename pairing.numbers)) id =
      left.showAnyStore path id :=
  like.showStore Heap.showLimit path id

theorem shown (like : Like pairing left right) (value : Value) :
    right.shown (value.rename pairing.numbers) = left.shown value := by
  rw [Heap.shown, Heap.shown, like.current]
  exact Value.shown_rename pairing.numbers like.showAnyStore [] (left.current value)

theorem source (like : Like pairing left right) (value : Value) :
    right.source (value.rename pairing.numbers) = left.source value := by
  rw [Heap.source, Heap.source, like.current]
  exact Value.source_rename pairing.numbers like.showAnyStore (left.current value)

theorem display (like : Like pairing left right) (value : Value) :
    right.display (value.rename pairing.numbers) = left.display value := by
  rw [Heap.display, Heap.display, like.current]
  exact Value.display_rename pairing.numbers like.showAnyStore (left.current value)

theorem textPart (like : Like pairing left right) (value : Value) :
    right.textPart (value.rename pairing.numbers) = left.textPart value := by
  rw [Heap.textPart, Heap.textPart, like.current]
  exact Value.textPart_rename pairing.numbers like.showAnyStore (left.current value)

theorem texts (like : Like pairing left right) :
    Template.Texts.Alike pairing.numbers ⟨left.display, left.shown⟩
      ⟨right.display, right.shown⟩ :=
  ⟨like.display, like.shown⟩

end Heap.Like

end CueScript
