import CueScript.Proofs.Run.Watch

/-!
# Runs whose scopes part

Two runs do the same, but in some scopes they have other scopes around them.  A `Parting`
says what scopes the left and the right one have and which of these they share.  As long as
nothing leads to one that is not shared, only the forms that are evaluated there can tell
the runs apart.

`Parting.Fits` says of the heap of the left run that it leads to shared scopes only.  The
heap of the right run is the same but for its scopes.  When a scope is opened, the runs
share it or part there: it is new in any case, so nothing leads to it yet.
-/

namespace CueScript

/-- What forms may speak of. -/
structure Vocabulary where
  /-- The names that may be looked up. -/
  names : String → Prop
  /-- The numbers of the lists that forms are made of. -/
  lists : Nat → Prop
  numbered : ¬ lists 0

namespace Vocabulary

variable (vocabulary : Vocabulary)

/-- Whether a list with one of the numbers may have an item. -/
def Item : Value → Prop
  | .symbol name => vocabulary.names name
  | .list _ birth => vocabulary.lists birth
  | .vector _ birth => vocabulary.lists birth
  | _ => True

mutual

/-- Whether a form mentions only the names, apart from quotations.  Its lists have no number
or one of the numbers. -/
def Form : Value → Prop
  | .symbol name => vocabulary.names name
  | .list items birth => vocabulary.lists birth ∨ birth = 0 ∧ AllForms items
  | .vector items birth => vocabulary.lists birth ∨ birth = 0 ∧ AllForms items
  | _ => True

/-- The same for several forms. -/
def AllForms : List Value → Prop
  | [] => True
  | item :: rest => Form item ∧ AllForms rest

end

variable {vocabulary}

theorem allForms_iff {items : List Value} :
    vocabulary.AllForms items ↔ ∀ item ∈ items, vocabulary.Form item := by
  induction items with
  | nil => simp [AllForms]
  | cons item rest inductionHypothesis => simp [AllForms, inductionHypothesis]

theorem form_of_item {item : Value} (isItem : vocabulary.Item item) : vocabulary.Form item := by
  cases item with
  | list items birth => exact .inl isItem
  | vector items birth => exact .inl isItem
  | symbol name => exact isItem
  | _ => exact trivial

theorem item_current (holdings : Holdings) (item : Value) (isItem : vocabulary.Item item) :
    vocabulary.Item (item.current holdings) := by
  cases item with
  | list items birth =>
      rw [Value.current]
      split <;> exact isItem
  | vector items birth =>
      rw [Value.current]
      split <;> exact isItem
  | map entries birth =>
      rw [Value.current]
      split <;> exact trivial
  | symbol name => exact isItem
  | _ => exact trivial

variable (vocabulary)

/-- Everything may be met but some scopes; what lists of forms hold are items of forms. -/
def bounds (scopes : Nat → Prop) : Bounds :=
  { Bounds.anything with
    scopes
    contents := fun birth item => vocabulary.lists birth → vocabulary.Item item
    contents_current := fun _ item holdings isItem isList =>
      item_current holdings item (isItem isList) }

variable {vocabulary}

theorem lists_bounds {scopes : Nat → Prop} {birth : Nat} (other : ¬ vocabulary.lists birth)
    (items : List Value) :
    (vocabulary.bounds scopes).Lists birth items :=
  ⟨trivial, fun _ _ isList => absurd isList other⟩

end Vocabulary

/-- What two runs are compared under: in scopes that they do not share, forms of the
vocabulary are evaluated. -/
structure Terms extends Vocabulary where
  /-- The fault with which the left run stops where nothing is said of it. -/
  alarm : Fault

namespace Heap

/-! ## Other scopes -/

/-- A heap with other scopes. -/
def rescope (heap : Heap) (scopes : Array Scope) : Heap := { heap with scopes }

section Rescope

variable (heap : Heap) (scopes : Array Scope)

@[simp]
theorem rescope_scopes : (heap.rescope scopes).scopes = scopes := rfl

@[simp]
theorem rescope_stores : (heap.rescope scopes).stores = heap.stores := rfl

@[simp]
theorem left_rescope (birth : Nat) : (heap.rescope scopes).left? birth = heap.left? birth := rfl

@[simp]
theorem viewed_rescope (birth : Nat) :
    (heap.rescope scopes).viewed? birth = heap.viewed? birth := rfl

@[simp]
theorem table_rescope (id : Nat) : (heap.rescope scopes).table id = heap.table id := rfl

@[simp]
theorem maxDepth_rescope (id : Nat) :
    (heap.rescope scopes).maxDepth id = heap.maxDepth id := rfl

@[simp]
theorem hostDepth_rescope (id : Nat) :
    (heap.rescope scopes).hostDepth id = heap.hostDepth id := rfl

@[simp]
theorem storeName_rescope (id : Nat) :
    (heap.rescope scopes).storeName id = heap.storeName id := rfl

@[simp]
theorem holdings_rescope (budget : Nat) (path : List Nat) :
    (heap.rescope scopes).holdings budget path = heap.holdings budget path := by
  induction budget generalizing path with
  | zero => rfl
  | succ budget inductionHypothesis => simp [holdings, inductionHypothesis]

@[simp]
theorem current_rescope (value : Value) :
    (heap.rescope scopes).current value = heap.current value := by
  unfold current present
  rw [holdings_rescope]
  rfl

@[simp]
theorem currentItems_rescope (items : List Value) :
    (heap.rescope scopes).currentItems items = heap.currentItems items := by
  unfold currentItems present
  rw [holdings_rescope]
  rfl

@[simp]
theorem entries_rescope (id : Nat) : (heap.rescope scopes).entries id = heap.entries id := by
  unfold entries present
  rw [holdings_rescope]
  rfl

@[simp]
theorem valueIn_rescope (vars : Variables) (key : Value) :
    (heap.rescope scopes).valueIn? vars key = heap.valueIn? vars key := by
  unfold valueIn?
  simp only [table_rescope, entries_rescope]

@[simp]
theorem showStore_rescope (budget : Nat) (path : List Enclosure) (id : Nat) :
    (heap.rescope scopes).showStore budget path id = heap.showStore budget path id := by
  induction budget generalizing path id with
  | zero => rfl
  | succ budget inductionHypothesis =>
      have inner : (heap.rescope scopes).showStore budget = heap.showStore budget := by
        funext path id
        exact inductionHypothesis path id
      rw [showStore, showStore, inner, entries_rescope, storeName_rescope]

@[simp]
theorem showAnyStore_rescope : (heap.rescope scopes).showAnyStore = heap.showAnyStore := by
  funext path id
  simp only [showAnyStore, showStore_rescope]

@[simp]
theorem shown_rescope : (heap.rescope scopes).shown = heap.shown := by
  funext value
  simp only [shown, current_rescope, showAnyStore_rescope]

@[simp]
theorem source_rescope : (heap.rescope scopes).source = heap.source := by
  funext value
  simp only [source, current_rescope, showAnyStore_rescope]

@[simp]
theorem display_rescope : (heap.rescope scopes).display = heap.display := by
  funext value
  simp only [display, current_rescope, showAnyStore_rescope]

@[simp]
theorem textPart_rescope : (heap.rescope scopes).textPart = heap.textPart := by
  funext value
  simp only [textPart, current_rescope, showAnyStore_rescope]

theorem setEntries_rescope (id : Nat) (entries : ValueEntries) :
    (heap.rescope scopes).setEntries id entries =
      (heap.setEntries id entries).rescope scopes := by
  unfold setEntries
  rw [rescope_stores]
  split <;> rfl

theorem view_rescope (table : Nat) :
    (heap.rescope scopes).view table =
      ((heap.view table).1, (heap.view table).2.rescope scopes) := by
  unfold view
  simp only [rescope]
  split <;> rfl

theorem leave_rescope (birth : Nat) (left : List Value) :
    (heap.rescope scopes).leave birth left = (heap.leave birth left).rescope scopes := by
  unfold leave
  split <;> rfl

theorem variablesOf_rescope (holder : Value) :
    (heap.rescope scopes).variablesOf holder =
      ((heap.variablesOf holder).1, (heap.variablesOf holder).2.rescope scopes) := by
  unfold variablesOf
  simp only [viewed_rescope]
  split
  · split <;> rfl
  · rfl

end Rescope

end Heap

/-! ## Partings -/

/-- The scopes of the left and of the right run.  What those that they share lead to is
shared, too. -/
structure Parting (terms : Terms) where
  left : Array Scope
  right : Array Scope
  shared : Nat → Prop
  sameCount : right.size = left.size
  alike : ∀ id, shared id → ∃ scope, left[id]? = some scope ∧ right[id]? = some scope ∧
    scope.vars.Within (terms.bounds shared) ∧ ∀ outer ∈ scope.outer, shared outer

namespace Parting

variable {terms : Terms}

/-- What both runs may meet. -/
def bounds (parting : Parting terms) : Bounds := terms.bounds parting.shared

/-- Whether a value leads to shared scopes only. -/
abbrev Knows (parting : Parting terms) (value : Value) : Prop := value.Within parting.bounds

/-- The same for several values. -/
abbrev KnowsAll (parting : Parting terms) (items : List Value) : Prop :=
  Value.AllWithin parting.bounds items

/-- The same for a value that may be missing. -/
abbrev KnowsSome (parting : Parting terms) (found : Option Value) : Prop :=
  Value.SomeWithin parting.bounds found

/-- Whether a parting is what another has become: more scopes are there, and more of them are
shared. -/
structure Later (earlier later : Parting terms) : Prop where
  left : ∀ (id : Nat) (scope : Scope),
    earlier.left[id]? = some scope → later.left[id]? = some scope
  right : ∀ (id : Nat) (scope : Scope),
    earlier.right[id]? = some scope → later.right[id]? = some scope
  shared : ∀ id, earlier.shared id → later.shared id

namespace Later

variable {first second third : Parting terms}

theorem refl (parting : Parting terms) : parting.Later parting :=
  ⟨fun _ _ => id, fun _ _ => id, fun _ => id⟩

theorem trans (former : first.Later second) (latter : second.Later third) : first.Later third :=
  ⟨fun id scope isScope => latter.left id scope (former.left id scope isScope),
    fun id scope isScope => latter.right id scope (former.right id scope isScope),
    fun id isShared => latter.shared id (former.shared id isShared)⟩

theorem narrower (later : first.Later second) : first.bounds.Narrower second.bounds where
  stores _ := id
  scopes := later.shared
  evaluators _ := id
  births _ := id
  code _ := id
  contents _ _ := id
  escapes := id

theorem knows (later : first.Later second) {value : Value} (known : first.Knows value) :
    second.Knows value :=
  Value.within_widen later.narrower value known

theorem knowsAll (later : first.Later second) {items : List Value}
    (known : first.KnowsAll items) :
    second.KnowsAll items :=
  Value.allWithin_widen later.narrower items known

theorem knowsEntries (later : first.Later second) {entries : ValueEntries}
    (known : Value.EntriesWithin first.bounds entries) :
    Value.EntriesWithin second.bounds entries :=
  Value.entriesWithin_widen later.narrower entries known

end Later

/-- Whether a scope has the same variables in both runs. -/
def SameVariables (parting : Parting terms) (id : Nat) : Prop :=
  ∃ vars outer other, parting.left[id]? = some ⟨vars, outer⟩ ∧
    parting.right[id]? = some ⟨vars, other⟩

theorem sameVariables (parting : Parting terms) {id : Nat} (isShared : parting.shared id) :
    parting.SameVariables id := by
  obtain ⟨⟨vars, outer⟩, isLeft, isRight, -⟩ := parting.alike id isShared
  exact ⟨vars, outer, outer, isLeft, isRight⟩

/-! ## Scopes that are opened -/

/-- Both runs open the same scope and share it. -/
def share
    (parting : Parting terms) (scope : Scope) (varsKnown : scope.vars.Within parting.bounds)
    (outerShared : ∀ outer ∈ scope.outer, parting.shared outer) :
    Parting terms where
  left := parting.left.push scope
  right := parting.right.push scope
  shared id := parting.shared id ∨ id = parting.left.size
  sameCount := by simp [parting.sameCount]
  alike := by
    have wider : parting.bounds.Narrower
        (terms.bounds fun id => parting.shared id ∨ id = parting.left.size) :=
      ⟨fun _ => id, fun _ => .inl, fun _ => id, fun _ => id, fun _ => id, fun _ _ => id, id⟩
    have widen {vars : Variables} (known : vars.Within parting.bounds) :
        vars.Within (terms.bounds fun id => parting.shared id ∨ id = parting.left.size) :=
      Heap.variablesWithin_widen wider (fun _ => id) known
    rintro id (isShared | rfl)
    · obtain ⟨held, isLeft, isRight, varsKnown, outerShared⟩ := parting.alike id isShared
      exact ⟨held, Heap.getElem?_push_of_some isLeft scope,
        Heap.getElem?_push_of_some isRight scope, widen varsKnown,
        fun outer member => .inl (outerShared outer member)⟩
    · refine ⟨scope, Array.getElem?_push_size, ?_, widen varsKnown,
        fun outer member => .inl (outerShared outer member)⟩
      rw [← parting.sameCount]
      exact Array.getElem?_push_size

/-- Each run opens a scope of its own. -/
def part (parting : Parting terms) (left right : Scope) : Parting terms where
  left := parting.left.push left
  right := parting.right.push right
  shared := parting.shared
  sameCount := by simp [parting.sameCount]
  alike id isShared := by
    obtain ⟨held, isLeft, isRight, known⟩ := parting.alike id isShared
    exact ⟨held, Heap.getElem?_push_of_some isLeft left,
      Heap.getElem?_push_of_some isRight right, known⟩

theorem later_share
    (parting : Parting terms) {scope : Scope} (varsKnown : scope.vars.Within parting.bounds)
    (outerShared : ∀ outer ∈ scope.outer, parting.shared outer) :
    parting.Later (parting.share scope varsKnown outerShared) :=
  ⟨fun _ _ isScope => Heap.getElem?_push_of_some isScope scope,
    fun _ _ isScope => Heap.getElem?_push_of_some isScope scope, fun _ => .inl⟩

theorem later_part (parting : Parting terms) (left right : Scope) :
    parting.Later (parting.part left right) :=
  ⟨fun _ _ isScope => Heap.getElem?_push_of_some isScope left,
    fun _ _ isScope => Heap.getElem?_push_of_some isScope right, fun _ => id⟩

/-! ## Heaps that fit -/

/-- Whether a heap is one of the left run: everything that it holds leads to shared scopes
only, and what lists of forms have left are items of forms. -/
structure Fits (parting : Parting terms) (heap : Heap) : Prop where
  scopes : heap.scopes = parting.left
  tables : ∀ (id : Nat) (entries : ValueEntries), heap.tables[id]? = some entries →
    Value.EntriesWithin parting.bounds entries
  losses : ∀ (birth : Nat) (left : List Value), heap.left? birth = some left →
    parting.bounds.Lists birth left ∧ parting.KnowsAll left
  unnumbered : heap.left? 0 = none
  births : ∀ birth, terms.lists birth → birth < heap.births

namespace Fits

variable {parting : Parting terms} {heap : Heap}

/-! ### What is looked up -/

theorem table (fits : parting.Fits heap) (id : Nat) :
    Value.EntriesWithin parting.bounds (heap.table id) := by
  unfold Heap.table
  cases found : heap.tables[id]? with
  | none => exact trivial
  | some entries => exact fits.tables id entries found

theorem holdings (fits : parting.Fits heap) (budget : Nat) (path : List Nat) :
    (heap.holdings budget path).Within parting.bounds := by
  induction budget generalizing path with
  | zero =>
      constructor
      · intro birth held _ isHeld
        cases isHeld
      · intro birth held _ isHeld
        cases isHeld
  | succ budget inductionHypothesis =>
      constructor
      · intro birth held _ isHeld
        obtain ⟨left, isLeft, rfl⟩ := Option.map_eq_some_iff.mp isHeld
        obtain ⟨lists, leftKnown⟩ := fits.losses birth left isLeft
        exact ⟨lists.current _, Value.allWithin_current (inductionHypothesis path) left leftKnown⟩
      · intro birth held _ isHeld
        obtain ⟨table, -, rfl⟩ := Option.map_eq_some_iff.mp isHeld
        split
        · exact trivial
        · exact Value.entriesWithin_current (inductionHypothesis _) _ (fits.table table)

theorem current (fits : parting.Fits heap) {value : Value} (known : parting.Knows value) :
    parting.Knows (heap.current value) := by
  unfold Heap.current
  split
  · exact known
  · exact Value.within_current (fits.holdings _ _) value known

theorem currentItems
    (fits : parting.Fits heap) {items : List Value} (known : parting.KnowsAll items) :
    parting.KnowsAll (heap.currentItems items) := by
  unfold Heap.currentItems
  split
  · exact known
  · exact Value.allWithin_current (fits.holdings _ _) items known

theorem entries (fits : parting.Fits heap) (id : Nat) :
    Value.EntriesWithin parting.bounds (heap.entries id) := by
  unfold Heap.entries
  split
  · rename_i store _
    have stored := fits.table store.table
    simp only
    split
    · exact stored
    · exact Value.entriesWithin_current (fits.holdings _ _) _ stored
  · exact trivial

theorem valueIn
    (fits : parting.Fits heap) {vars : Variables} {key : Value} {found : Option Value}
    (isFound : heap.valueIn? vars key = .ok found) :
    parting.KnowsSome found := by
  unfold Heap.valueIn? at isFound
  split at isFound
  · exact Value.within_of_get (fits.table _) isFound
  · exact Value.within_of_get (fits.entries _) isFound
  · cases isFound
  · cases isFound

theorem firstValueIn
    (fits : parting.Fits heap) {key : Value} {scopes : List Nat} {found : Option Value}
    (isFound : heap.firstValueIn? key scopes = .ok found) :
    parting.KnowsSome found := by
  induction scopes with
  | nil =>
      cases isFound
      exact Value.someWithin_none
  | cons id rest inductionHypothesis =>
      rw [Heap.firstValueIn?] at isFound
      split at isFound
      · exact inductionHypothesis isFound
      · rename_i scope _
        cases here : heap.valueIn? scope.vars key with
        | error failure =>
            rw [here] at isFound
            cases isFound
        | ok foundHere =>
            rw [here] at isFound
            cases foundHere with
            | none => exact inductionHypothesis isFound
            | some value =>
                cases isFound
                exact fits.valueIn here

theorem lookup
    (fits : parting.Fits heap) {scope : Nat} {key : Value} {found : Option Value}
    (isFound : heap.lookup? scope key = .ok found) :
    parting.KnowsSome found := by
  unfold Heap.lookup? at isFound
  split at isFound
  · cases isFound
    exact Value.someWithin_none
  · exact fits.firstValueIn isFound

/-- The left run has the scopes of the parting. -/
theorem leftScope (fits : parting.Fits heap) (id : Nat) :
    heap.scopes[id]? = parting.left[id]? := by rw [fits.scopes]

/-- A scope that is shared is the same in both runs. -/
theorem sharedScope (fits : parting.Fits heap) {id : Nat} (isShared : parting.shared id) :
    (heap.rescope parting.right).scopes[id]? = heap.scopes[id]? := by
  obtain ⟨scope, isLeft, isRight, -⟩ := parting.alike id isShared
  rw [fits.scopes, isLeft]
  exact isRight

theorem firstValueIn_rescope
    (fits : parting.Fits heap) (key : Value) {scopes : List Nat}
    (areShared : ∀ id ∈ scopes, parting.shared id) :
    (heap.rescope parting.right).firstValueIn? key scopes = heap.firstValueIn? key scopes := by
  induction scopes with
  | nil => rfl
  | cons id rest inductionHypothesis =>
      have later := inductionHypothesis fun each member =>
        areShared each (List.mem_cons_of_mem id member)
      simp only [Heap.firstValueIn?, fits.sharedScope (areShared id List.mem_cons_self),
        Heap.valueIn_rescope, later]

theorem lookup_rescope
    (fits : parting.Fits heap) {scope : Nat} (isShared : parting.shared scope) (key : Value) :
    (heap.rescope parting.right).lookup? scope key = heap.lookup? scope key := by
  obtain ⟨inner, isLeft, -, -, outerShared⟩ := parting.alike scope isShared
  have areShared : ∀ id ∈ scope :: inner.outer, parting.shared id := by
    intro id member
    rcases List.mem_cons.mp member with rfl | member
    · exact isShared
    · exact outerShared id member
  have isScope := (fits.leftScope scope).trans isLeft
  unfold Heap.lookup?
  rw [fits.sharedScope isShared, isScope]
  exact fits.firstValueIn_rescope key areShared

theorem scopeValue (fits : parting.Fits heap) {id : Nat} (isShared : parting.shared id) :
    (heap.rescope parting.right).scopeValue id = heap.scopeValue id ∧
      parting.Knows (heap.scopeValue id) := by
  obtain ⟨scope, isLeft, -, varsKnown, -⟩ := parting.alike id isShared
  constructor
  · unfold Heap.scopeValue
    rw [fits.sharedScope isShared]
  · unfold Heap.scopeValue
    rw [fits.leftScope id, isLeft]
    obtain ⟨vars, outer⟩ := scope
    cases vars with
    | absent given => exact varsKnown
    | _ => exact ⟨isShared, trivial⟩

theorem defined_rescope
    (fits : parting.Fits heap) {id : Nat} (alike : parting.SameVariables id) (key value : Value) :
    (heap.rescope parting.right).defined id key value = heap.defined id key value := by
  obtain ⟨vars, outer, other, isLeft, isRight⟩ := alike
  unfold Heap.defined
  rw [fits.leftScope id, isLeft, Heap.rescope_scopes, isRight]
  cases vars <;> rfl

theorem canOpenInside_rescope
    (fits : parting.Fits heap) {id : Nat} (isShared : parting.shared id) :
    (heap.rescope parting.right).canOpenInside id = heap.canOpenInside id := by
  unfold Heap.canOpenInside
  rw [fits.sharedScope isShared]

/-! ### What changes -/

/-- A number is given out. -/
theorem newBirth (fits : parting.Fits heap) :
    ¬ terms.lists heap.births ∧ parting.Fits { heap with births := heap.births + 1 } :=
  ⟨fun isList => Nat.lt_irrefl _ (fits.births _ isList),
    { fits with births := fun birth isList => Nat.lt_succ_of_lt (fits.births birth isList) }⟩

theorem openTable
    (fits : parting.Fits heap) {entries : ValueEntries}
    (known : Value.EntriesWithin parting.bounds entries) :
    parting.Fits (heap.openTable entries).2 :=
  { fits with
    tables := fun id found isFound => by
      simp only [Heap.openTable, Array.getElem?_push] at isFound
      split at isFound
      · cases isFound
        exact known
      · exact fits.tables id found isFound }

theorem setTable
    (fits : parting.Fits heap) (id : Nat) {entries : ValueEntries}
    (known : Value.EntriesWithin parting.bounds entries) :
    parting.Fits (heap.setTable id entries) :=
  { fits with
    tables := fun other found isFound => by
      simp only [Heap.setTable, Array.getElem?_modify] at isFound
      split at isFound
      · obtain ⟨_, -, rfl⟩ := Option.map_eq_some_iff.mp isFound
        exact known
      · exact fits.tables other found isFound }

theorem setEntries
    (fits : parting.Fits heap) (id : Nat) {entries : ValueEntries}
    (known : Value.EntriesWithin parting.bounds entries) :
    parting.Fits (heap.setEntries id entries) := by
  unfold Heap.setEntries
  split
  · exact fits.setTable _ known
  · exact fits

theorem setHostDepth (fits : parting.Fits heap) (evaluator : Nat) (depth : Int) :
    parting.Fits (heap.setHostDepth evaluator depth) := { fits with }

theorem view (fits : parting.Fits heap) (table : Nat) :
    parting.Knows (heap.view table).1 ∧ parting.Fits (heap.view table).2 := by
  unfold Heap.view
  split
  · exact ⟨⟨trivial, trivial⟩, fits⟩
  · exact ⟨⟨trivial, trivial⟩, { fits.newBirth.2 with }⟩

theorem leave
    (fits : parting.Fits heap) {birth : Nat} {left : List Value}
    (lists : parting.bounds.Lists birth left) (known : parting.KnowsAll left) :
    parting.Fits (heap.leave birth left) := by
  have kept : (heap.leave birth left).scopes = heap.scopes ∧
      (heap.leave birth left).tables = heap.tables ∧
      (heap.leave birth left).births = heap.births := by
    unfold Heap.leave
    split <;> exact ⟨rfl, rfl, rfl⟩
  obtain ⟨scopes, tables, births⟩ := kept
  refine ⟨scopes.trans fits.scopes, tables ▸ fits.tables, fun other held isHeld => ?_, ?_,
    births ▸ fits.births⟩
  · rw [Heap.Within.left_leave] at isHeld
    split at isHeld
    · rename_i same
      cases isHeld
      exact same.2 ▸ ⟨lists, known⟩
    · exact fits.losses other held isHeld
  · rw [Heap.Within.left_leave, if_neg fun numbered => numbered.1 numbered.2]
    exact fits.unnumbered

theorem variablesOf
    (fits : parting.Fits heap) {holder : Value} (known : parting.Knows holder) :
    (heap.variablesOf holder).1.Within parting.bounds ∧
      parting.Fits (heap.variablesOf holder).2 := by
  unfold Heap.variablesOf
  split
  · split
    · exact ⟨trivial, fits⟩
    · exact ⟨trivial, { fits.openTable known.2 with }⟩
  · exact ⟨known, fits⟩

theorem defined
    (fits : parting.Fits heap) {scope : Nat} {key value : Value} {table : Nat}
    {revised : ValueEntries} (keyKnown : parting.Knows key) (valueKnown : parting.Knows value)
    (isRevised : heap.defined scope key value = .ok (table, revised)) :
    Value.EntriesWithin parting.bounds revised := by
  unfold Heap.defined at isRevised
  split at isRevised
  · rename_i id outer _
    cases put : ValueEntries.put (heap.table id) key value with
    | error failure =>
        rw [put] at isRevised
        cases isRevised
    | ok built =>
        rw [put] at isRevised
        cases isRevised
        exact Value.entriesWithin_of_put (fits.table _) keyKnown valueKnown put
  · cases isRevised

/-- A heap goes on to fit when scopes are opened. -/
theorem later
    {after : Parting terms} (fits : parting.Fits heap) (later : parting.Later after) :
    after.Fits { heap with scopes := after.left } where
  scopes := rfl
  tables id entries isTable := later.knowsEntries (fits.tables id entries isTable)
  losses birth left isLeft := by
    obtain ⟨lists, known⟩ := fits.losses birth left isLeft
    exact ⟨later.narrower.lists lists, later.knowsAll known⟩
  unnumbered := fits.unnumbered
  births := fits.births

end Fits

end Parting

end CueScript
