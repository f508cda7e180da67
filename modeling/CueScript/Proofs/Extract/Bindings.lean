import CueScript.Proofs.Extract.Beside
import CueScript.Proofs.Frame.Calls
import CueScript.Proofs.Symbols.Guard

/-!
# Trees of symbols in one scope

The symbols of an expression are bound one after the other in one scope, and each tree is
evaluated where the symbols before it are bound already.  A tree that keeps to itself has
there the value that it has where no symbol is bound, and leaves what is there.
-/

namespace CueScript

/-- Everything may be met but stores and closures; lists and maps have some numbers. -/
def Bounds.data (numbers : Nat → Prop) : Bounds where
  stores _ := False
  scopes _ := False
  evaluators _ := False
  tables _ := False
  births := numbers
  losable _ := True
  code _ := False
  contents birth _ := numbers birth
  contents_current _ _ _ known := known
  escapes := False

namespace Heap

/-- Whether a value holds neither stores nor closures, and all its lists and maps, as they are
now, have some numbers that have been given out. -/
structure HoldsData (heap : Heap) (numbers : Nat → Prop) (value : Value) : Prop where
  known : heap.Knows value
  within : value.Within (.data numbers)
  given : ∀ birth, numbers birth → birth < heap.births
  losses : ∀ birth left, numbers birth → heap.left? birth = some left →
    Value.AllWithin (.data numbers) left

/-- Whether a number has been given out to a list that is no datum and has lost nothing. -/
structure IsUntouched (heap : Heap) (data : Nat → Prop) (birth : Nat) : Prop where
  positive : 0 < birth
  given : birth < heap.births
  unlost : heap.left? birth = none
  noData : ¬ data birth

/-- Whether numbers have been given out to lists of code that are no data and have lost
nothing. -/
structure OwnsCode (heap : Heap) (data code : Nat → Prop) : Prop where
  numbered : ¬ code 0
  given : ∀ birth, code birth → birth < heap.births
  unlost : ∀ birth, code birth → heap.left? birth = none
  noData : ∀ birth, code birth → ¬ data birth

end Heap

/-! ## Values without closures -/

namespace Value

variable {ρ : Renaming}

mutual

theorem withoutClosures_rename (value : Value) (within : Within .withoutClosures value) :
    Within .withoutClosures (value.rename ρ) := by
  cases value with
  | list items birth =>
      rw [rename_list]
      exact ⟨⟨trivial, fun _ _ => trivial⟩, allWithoutClosures_rename items within.2⟩
  | vector items birth =>
      rw [rename_vector]
      exact ⟨⟨trivial, fun _ _ => trivial⟩, allWithoutClosures_rename items within.2⟩
  | quoted form => exact withoutClosures_rename form within
  | tuple items =>
      rw [rename_tuple]
      exact allWithoutClosures_rename items within
  | map entries birth =>
      rw [rename_map]
      exact ⟨trivial, entriesWithoutClosures_rename entries within.2⟩
  | closure id name params rest body inside owner => exact within.2.2.2.2.elim
  | event id origin members =>
      rw [rename_event]
      exact membersWithoutClosures_rename members within
  | method id result => exact withoutClosures_rename result within
  | member receiver name => exact withoutClosures_rename receiver within
  | scope id => exact within.2.elim
  | evaluator id => exact within.2.elim
  | store id => exact within
  | _ => exact trivial

theorem allWithoutClosures_rename
    (items : List Value) (within : AllWithin .withoutClosures items) :
    AllWithin .withoutClosures (items.map (rename ρ)) := by
  cases items with
  | nil => exact trivial
  | cons item rest =>
      exact ⟨withoutClosures_rename item within.1, allWithoutClosures_rename rest within.2⟩

theorem entriesWithoutClosures_rename
    (entries : List (Value × Value)) (within : EntriesWithin .withoutClosures entries) :
    EntriesWithin .withoutClosures (entries.map (renameEntry ρ)) := by
  cases entries with
  | nil => exact trivial
  | cons entry rest =>
      exact ⟨entryWithoutClosures_rename entry within.1,
        entriesWithoutClosures_rename rest within.2⟩

theorem entryWithoutClosures_rename
    (entry : Value × Value) (within : EntryWithin .withoutClosures entry) :
    EntryWithin .withoutClosures (renameEntry ρ entry) := by
  cases entry with
  | mk key value =>
      exact ⟨withoutClosures_rename key within.1, withoutClosures_rename value within.2⟩

theorem membersWithoutClosures_rename
    (members : List (String × Value)) (within : MembersWithin .withoutClosures members) :
    MembersWithin .withoutClosures (members.map (renameMember ρ)) := by
  cases members with
  | nil => exact trivial
  | cons first rest =>
      exact ⟨memberWithoutClosures_rename first within.1,
        membersWithoutClosures_rename rest within.2⟩

theorem memberWithoutClosures_rename
    (first : String × Value) (within : MemberWithin .withoutClosures first) :
    MemberWithin .withoutClosures (renameMember ρ first) := by
  cases first with
  | mk name value => exact withoutClosures_rename value within

end

end Value

namespace Heap

/-! ## Two scopes -/

theorem Settled.opened
    {heap : Heap} (settled : heap.Settled) {vars : ValueEntries} {outer : List Nat}
    (known : ∀ entry ∈ vars, heap.Knows entry.1 ∧ heap.Knows entry.2)
    (around : ∀ each ∈ outer, each < heap.scopes.size) :
    (heap.opened vars outer).Settled := by
  have tableCount : (heap.opened vars outer).tables.size = heap.tables.size + 1 :=
    Array.size_push ..
  have scopeCount : (heap.opened vars outer).scopes.size = heap.scopes.size + 1 :=
    Array.size_push ..
  have later {value : Value} (known : heap.Knows value) :
      (heap.opened vars outer).Knows value :=
    known.mono (Nat.le_refl _) (by omega) (by omega)
  constructor
  · exact settled.births
  · intro id entries isTable entry member
    change (heap.tables.push vars)[id]? = some entries at isTable
    rw [Array.getElem?_push] at isTable
    split at isTable
    · cases isTable
      exact (known entry member).imp later later
    · exact (settled.tables id entries isTable entry member).imp later later
  · intro entry member
    have below := settled.views entry member
    exact ⟨below.1, by omega⟩
  · intro entry member
    obtain ⟨below, known⟩ := settled.losses entry member
    exact ⟨below, fun item inside => later (known item inside)⟩
  · intro id store isStore
    have below := settled.stores id store isStore
    omega
  · intro id scope isScope
    change (heap.scopes.push _)[id]? = some scope at isScope
    rw [Array.getElem?_push] at isScope
    split at isScope
    · cases isScope
      refine ⟨by simp only; omega, fun each member => ?_⟩
      have below := around each member
      omega
    · obtain ⟨varsKnown, outerKnown⟩ := settled.scopes id scope isScope
      refine ⟨?_, fun each member => ?_⟩
      · cases isVars : scope.vars with
        | table table =>
            rw [isVars] at varsKnown
            exact Nat.lt_of_lt_of_le varsKnown (by omega)
        | inside holder =>
            rw [isVars] at varsKnown
            exact later varsKnown
        | absent given =>
            rw [isVars] at varsKnown
            exact later varsKnown
      · have below := outerKnown each member
        omega

/-- A heap with a scope for what a function is called with and another one inside it. -/
def bound (heap : Heap) (params vars : ValueEntries) (root : Nat) : Heap :=
  (heap.opened params [root]).opened vars [heap.scopes.size, root]

section Bound

variable {heap : Heap} {params vars : ValueEntries} {root : Nat}

theorem bound_scopes :
    (heap.bound params vars root).scopes =
      (heap.scopes.push ⟨.table heap.tables.size, [root]⟩).push
        ⟨.table (heap.tables.size + 1), [heap.scopes.size, root]⟩ := by
  simp only [bound, opened, Array.size_push]

theorem bound_scopeCount :
    (heap.bound params vars root).scopes.size = heap.scopes.size + 2 := by
  simp [bound, opened]

theorem bound_tableCount :
    (heap.bound params vars root).tables.size = heap.tables.size + 2 := by
  simp [bound, opened]

theorem bound_scope_before {id : Nat} (before : id < heap.scopes.size) :
    (heap.bound params vars root).scopes[id]? = heap.scopes[id]? := by
  rw [bound_scopes, getElem?_push_of_lt (by rw [Array.size_push]; omega),
    getElem?_push_of_lt before]

theorem bound_outer :
    (heap.bound params vars root).scopes[heap.scopes.size]? =
      some ⟨.table heap.tables.size, [root]⟩ := by
  rw [bound_scopes, getElem?_push_of_lt (by rw [Array.size_push]; omega), Array.getElem?_push_size]

theorem bound_inner :
    (heap.bound params vars root).scopes[heap.scopes.size + 1]? =
      some ⟨.table (heap.tables.size + 1), [heap.scopes.size, root]⟩ := by
  have inner := @Array.getElem?_push_size _
    (heap.scopes.push ⟨.table heap.tables.size, [root]⟩)
    ⟨.table (heap.tables.size + 1), [heap.scopes.size, root]⟩
  rw [Array.size_push] at inner
  rw [bound_scopes, inner]

theorem bound_table_before {id : Nat} (before : id < heap.tables.size) :
    (heap.bound params vars root).tables[id]? = heap.tables[id]? := by
  unfold bound opened
  rw [getElem?_push_of_lt (by rw [Array.size_push]; omega), getElem?_push_of_lt before]

theorem bound_params :
    (heap.bound params vars root).tables[heap.tables.size]? = some params := by
  unfold bound opened
  rw [getElem?_push_of_lt (by rw [Array.size_push]; omega), Array.getElem?_push_size]

theorem bound_vars :
    (heap.bound params vars root).tables[heap.tables.size + 1]? = some vars := by
  have inner := @Array.getElem?_push_size _ (heap.tables.push params) vars
  rwa [Array.size_push] at inner

theorem perform_childScope_bound :
    (Action.childScope heap.scopes.size vars).perform (heap.opened params [root]) =
      (.ok (heap.scopes.size + 1), heap.bound params vars root) := by
  have size : (heap.opened params [root]).scopes.size = heap.scopes.size + 1 := Array.size_push ..
  have opens := perform_childScope (heap.opened_scope params [root]) vars
  rw [size] at opens
  exact opens

end Bound

theorem Grows.refl (heap : Heap) : heap.Grows heap where
  stores := rfl
  views := rfl
  evaluators := rfl
  scopes _ _ := rfl
  tables _ _ := rfl
  scopeCount := Nat.le_refl _
  tableCount := Nat.le_refl _
  births := Nat.le_refl _

/-! ## Variables under barred names -/

end Heap

/-- Whether all entries are variables with names out of a list. -/
def ValueEntries.NamedIn (names : List String) (vars : ValueEntries) : Prop :=
  ∀ entry ∈ vars, ∃ name ∈ names, entry.1 = .str name

theorem ValueEntries.NamedIn.find
    {names : List String} {vars : ValueEntries} (named : NamedIn names vars) {name : String}
    (other : name ∉ names) :
    Entries.find? Value.sameKey (.str name) vars = none := by
  induction vars with
  | nil => rfl
  | cons entry rest inductionHypothesis =>
      obtain ⟨key, value⟩ := entry
      obtain ⟨stored, isName, isKey⟩ := named _ List.mem_cons_self
      cases isKey
      have different : Value.sameKey (.str stored) (.str name) = false :=
        beq_eq_false_iff_ne.mpr fun same => other (same ▸ isName)
      rw [Entries.find?, different, if_neg Bool.false_ne_true]
      exact inductionHypothesis fun entry member => named entry (List.mem_cons_of_mem _ member)

theorem ValueEntries.NamedIn.put
    {names : List String} {vars : ValueEntries} (named : vars.NamedIn names) (name : String)
    (value : Value) :
    ValueEntries.NamedIn (name :: names) (Entries.put Value.sameKey (.str name) value vars) := by
  have kept {rest : ValueEntries} (named : rest.NamedIn names) :
      rest.NamedIn (name :: names) := fun entry member => by
    obtain ⟨other, isName, isKey⟩ := named entry member
    exact ⟨other, List.mem_cons_of_mem _ isName, isKey⟩
  induction vars with
  | nil =>
      intro entry member
      rw [List.mem_singleton.mp member]
      exact ⟨name, List.mem_cons_self, rfl⟩
  | cons entry rest inductionHypothesis =>
      obtain ⟨key, old⟩ := entry
      have restNamed : ValueEntries.NamedIn names rest := fun entry member =>
        named entry (List.mem_cons_of_mem _ member)
      obtain ⟨stored, isName, isKey⟩ := named _ List.mem_cons_self
      intro entry member
      rw [Entries.put] at member
      split at member
      · rcases List.mem_cons.mp member with rfl | later
        · exact ⟨stored, List.mem_cons_of_mem _ isName, isKey⟩
        · exact kept restNamed entry later
      · rcases List.mem_cons.mp member with rfl | later
        · exact ⟨stored, List.mem_cons_of_mem _ isName, isKey⟩
        · exact inductionHypothesis restNamed entry later

theorem ValueEntries.get_str (vars : ValueEntries) (name : String) :
    vars.get? (.str name) = .ok (Entries.find? Value.sameKey (.str name) vars) := rfl

namespace Heap

/-- A heap with two scopes is one with only the event in the outer one, apart from variables
under barred names. -/
theorem Grows.parallels
    {heap later : Heap} {hidden vars : ValueEntries} {root : Nat} {barred : List String}
    {event : Value} (settled : heap.Settled) (apart : heap.Apart)
    (hiddenNamed : hidden.NamedIn barred) (varsNamed : vars.NamedIn barred)
    (grows : (heap.bound ((.str Reference.eventSymbol, event) :: hidden) vars root).Grows later)
    (lossless : later.losses = heap.losses) :
    (heap.bound [(.str Reference.eventSymbol, event)] [] root).Parallels barred later := by
  have scopeCount := grows.scopeCount
  have tableCount := grows.tableCount
  rw [bound_scopeCount] at scopeCount
  rw [bound_tableCount] at tableCount
  have table {id : Nat} (below : id < heap.tables.size + 2) :=
    grows.tables id (by rw [bound_tableCount]; exact below)
  constructor
  · exact grows.stores
  · exact apart.views
  · exact grows.views.trans apart.views
  · exact lossless
  · exact grows.evaluators
  · intro id below
    rw [bound_scopeCount] at below
    rw [grows.scopes id (by rw [bound_scopeCount]; exact below), bound_scopes, bound_scopes]
  · intro id below owned
    obtain ⟨holder, store, isStore, rfl⟩ := isOfStore_iff.mp owned
    have old : store.table < heap.tables.size := settled.stores holder store isStore
    rw [table (by omega), bound_table_before old, bound_table_before old]
  · intro id below _ name other
    rw [bound_tableCount] at below
    have cases : id < heap.tables.size ∨ id = heap.tables.size ∨ id = heap.tables.size + 1 := by
      omega
    unfold Heap.table
    rw [table below]
    rcases cases with old | rfl | rfl
    · rw [bound_table_before old, bound_table_before old]
    · rw [bound_params, bound_params]
      simp only [Option.getD_some, ValueEntries.get_str, Entries.find?, hiddenNamed.find other]
    · rw [bound_vars, bound_vars]
      simp only [Option.getD_some, ValueEntries.get_str, Entries.find?, varsNamed.find other]
  · rw [bound_scopeCount]
    exact scopeCount
  · rw [bound_tableCount]
    exact tableCount
  · exact grows.births

/-! ## A tree beside itself -/

/-- Whether a scope is outermost and has functions of the language only. -/
structure IsRoot (heap : Heap) (root table : Nat) : Prop where
  scope : heap.scopes[root]? = some ⟨.table table, []⟩
  plain : ∀ entries, heap.tables[table]? = some entries →
    ∀ value ∈ ValueEntries.contents entries, value.isPlain = true

/-- What a tree that keeps to itself meets in a scope opened inside an outermost one. -/
def ownBounds (heap : Heap) (barred : List String) (data code : Nat → Prop) (root table : Nat) :
    Bounds :=
  .secluded barred code
    (fun birth => (birth = 0 ∨ data birth ∨ code birth) ∨ heap.births ≤ birth)
    (fun scope => scope = root ∨ heap.scopes.size ≤ scope)
    fun other => other = table ∨ heap.tables.size ≤ other

section Own

variable {heap : Heap} {barred : List String} {data code : Nat → Prop} {root table : Nat}
  {event : Value}

theorem narrower_ownBounds
    (owns : heap.OwnsCode data code) :
    (Bounds.data data).Narrower (heap.ownBounds barred data code root table) where
  stores _ := id
  scopes _ := False.elim
  evaluators _ := False.elim
  births _ known := Or.inl (Or.inr (Or.inl known))
  code _ := False.elim
  contents birth _ known isCode := absurd known (owns.noData birth isCode)
  escapes := id

theorem within_ownBounds
    (settled : heap.Settled) (apart : heap.Apart) (owns : heap.OwnsCode data code)
    (isRoot : heap.IsRoot root table) (holds : heap.HoldsData data event) :
    (heap.bound [(.str Reference.eventSymbol, event)] [] root).Within
      (heap.ownBounds barred data code root table) := by
  have narrower := @narrower_ownBounds _ barred _ _ root table owns
  have lost (birth : Nat) (left : List Value)
      (known : (heap.ownBounds barred data code root table).births birth)
      (isLeft : heap.left? birth = some left) :
      data birth := by
    have unlost {birth : Nat} (none : heap.left? birth = none)
        (isLeft : heap.left? birth = some left) : data birth := by
      rw [none] at isLeft
      cases isLeft
    rcases known with (rfl | known | isCode) | fresh
    · exact unlost apart.unnumbered isLeft
    · exact known
    · exact unlost (owns.unlost birth isCode) isLeft
    · exact unlost (settled.unlost fresh) isLeft
  constructor
  · intro id entries known isTable
    have below := (Array.getElem?_eq_some_iff.mp isTable).1
    rw [bound_tableCount] at below
    rcases known with rfl | opened
    · obtain ⟨_, isVars, old, -⟩ := apart.scopes root _ isRoot.scope
      cases isVars
      rw [bound_table_before old] at isTable
      have plain := isRoot.plain entries isTable
      rw [Value.entriesWithin_iff]
      intro entry member
      exact (ValueEntries.mem_contents member).imp
        (fun inside => Expression.within_of_isPlain (plain _ inside))
        fun inside => Expression.within_of_isPlain (plain _ inside)
    · have cases : id = heap.tables.size ∨ id = heap.tables.size + 1 := by omega
      rcases cases with rfl | rfl
      · rw [bound_params] at isTable
        cases isTable
        exact ⟨⟨trivial, Value.within_widen narrower event holds.within⟩, trivial⟩
      · rw [bound_vars] at isTable
        cases isTable
        exact trivial
  · exact fun _ _ isStore => isStore.elim
  · intro id scope known isScope
    have below := (Array.getElem?_eq_some_iff.mp isScope).1
    rw [bound_scopeCount] at below
    rcases known with rfl | opened
    · have old := (Array.getElem?_eq_some_iff.mp isRoot.scope).1
      rw [bound_scope_before old, isRoot.scope] at isScope
      cases isScope
      exact ⟨Or.inl rfl, fun _ member => nomatch member⟩
    · have cases : id = heap.scopes.size ∨ id = heap.scopes.size + 1 := by omega
      rcases cases with rfl | rfl
      · rw [bound_outer] at isScope
        cases isScope
        refine ⟨Or.inr (Nat.le_refl _), fun each member => ?_⟩
        rw [List.mem_singleton.mp member]
        exact Or.inl rfl
      · rw [bound_inner] at isScope
        cases isScope
        refine ⟨Or.inr (Nat.le_succ _), fun each member => ?_⟩
        rcases List.mem_cons.mp member with rfl | member
        · exact Or.inr (Nat.le_refl _)
        · rw [List.mem_singleton.mp member]
          exact Or.inl rfl
  · intro entry member
    change entry ∈ heap.views at member
    rw [apart.views] at member
    cases member
  · intro birth left known isLeft
    have isData := lost birth left known isLeft
    exact ⟨trivial, Value.allWithin_widen narrower left (holds.losses birth left isData isLeft)⟩
  · intro birth left known isLeft item _ isCode
    exact absurd (lost birth left known isLeft) (owns.noData birth isCode)
  · intro id fresh
    rw [bound_tableCount] at fresh
    exact Or.inr (by omega)
  · intro id fresh
    rw [bound_scopeCount] at fresh
    exact Or.inr (by omega)
  · exact fun birth fresh => Or.inr fresh
  · exact fun birth item fresh isCode =>
      absurd (owns.given birth isCode) (Nat.not_lt.mpr fresh)

/-- Whether a piece of work ends in a heap as it does in one with two scopes of which the inner
one is empty, and takes items only from new lists and from those with some numbers. -/
structure EndsBeside (heap : Heap) (known : Nat → Prop) (params vars : ValueEntries) (root : Nat)
    (alone other : Except Fault Value × Heap) : Prop where
  value : ∀ value, other.1 = .ok value → value.Within .withoutClosures
  outcome : ∃ ρ : Renaming, ρ.Keeps heap ∧ other.1 = alone.1.map (Value.rename ρ)
  grows : (heap.bound params vars root).Grows other.2
  losses : alone.2.losses = heap.losses → other.2.losses = heap.losses
  unlost : ∀ birth < heap.births, ¬ known birth → other.2.left? birth = heap.left? birth

/-- What a tree and the variables around it are like where the tree keeps to itself. -/
structure KeepsApart (heap : Heap) (barred : List String) (data code : Nat → Prop)
    (root table : Nat) (event : Value) (hidden : ValueEntries) : Prop where
  settled : heap.Settled
  apart : heap.Apart
  isRoot : heap.IsRoot root table
  owns : heap.OwnsCode data code
  holds : heap.HoldsData data event
  hiddenNamed : hidden.NamedIn barred
  noFunctions : "fn" ∈ barred
  noAbbreviations : ∀ name ∈ abbreviations.map Prod.fst, name ∈ barred

namespace KeepsApart

variable {hidden vars : ValueEntries} {later : Heap}
  (keeps : heap.KeepsApart barred data code root table event hidden)

include keeps

/-- Around the tree there is nothing that is not known. -/
theorem settled_bound :
    (heap.bound [(.str Reference.eventSymbol, event)] [] root).Settled := by
  have around : ∀ each ∈ [root], each < heap.scopes.size := by
    intro each member
    rw [List.mem_singleton.mp member]
    exact (Array.getElem?_eq_some_iff.mp keeps.isRoot.scope).1
  have outerSettled : (heap.opened [(.str Reference.eventSymbol, event)] [root]).Settled := by
    refine keeps.settled.opened (fun entry member => ?_) around
    rw [List.mem_singleton.mp member]
    exact ⟨fun _ _ => rfl, keeps.holds.known⟩
  refine outerSettled.opened (fun _ member => nomatch member) fun each member => ?_
  have count : (heap.opened [(.str Reference.eventSymbol, event)] [root]).scopes.size =
      heap.scopes.size + 1 := Array.size_push ..
  rcases List.mem_cons.mp member with rfl | member
  · omega
  · have below := around each member
    omega

/-- No store has the table of the root or one of those around the tree. -/
theorem shielded {id : Nat} {store : Store} (isStore : heap.stores[id]? = some store) :
    ¬ (store.table = table ∨ heap.tables.size ≤ store.table) := by
  obtain ⟨_, isVars, -, unowned⟩ := keeps.apart.scopes root _ keeps.isRoot.scope
  cases isVars
  have below := keeps.settled.stores id store isStore
  have different := unowned id store isStore
  omega

/-- The tree runs in a heap as it does with the event only. -/
theorem runsBeside
    {other : Heap}
    (parallels : (heap.bound [(.str Reference.eventSymbol, event)] [] root).Parallels barred other)
    {tree : Value} (known : heap.Knows tree) (isTree : tree.IsTreeWithout barred code)
    (owner frames : Nat) (depth : Int) :
    RunsBeside (heap.ownBounds barred data code root table)
      (heap.bound [(.str Reference.eventSymbol, event)] [] root) other keeps.settled_bound
      ((Eval.solve frames (.evaluate owner (heap.scopes.size + 1) tree depth)).perform
        (heap.bound [(.str Reference.eventSymbol, event)] [] root))
      ((Eval.solve frames (.evaluate owner (heap.scopes.size + 1) tree depth)).perform other) := by
  let bare := heap.bound [(.str Reference.eventSymbol, event)] [] root
  have scopeCount : bare.scopes.size = heap.scopes.size + 2 := bound_scopeCount
  have tableCount : bare.tables.size = heap.tables.size + 2 := bound_tableCount
  have grammar : (heap.ownBounds barred data code root table).Grammar True :=
    grammar_secluded keeps.owns.numbered (Or.inl (Or.inl rfl)) keeps.noFunctions
      keeps.noAbbreviations
  have heapWithin : bare.Within (heap.ownBounds barred data code root table) :=
    within_ownBounds keeps.settled keeps.apart keeps.owns keeps.isRoot keeps.holds
  have knownToo : bare.Knows tree :=
    known.mono (Nat.le_refl _) (by omega) (by omega)
  have evaluable : tree.Evaluable (heap.ownBounds barred data code root table) :=
    ⟨Value.within_of_without (fun _ isCode => Or.inl (Or.inr (Or.inr isCode))) tree isTree,
      Value.isCodeWithout_of_tree isTree⟩
  exact parallels.runsBeside keeps.settled_bound grammar heapWithin
    (fun _ _ isStore => keeps.shielded isStore) depth
    (show heap.scopes.size + 1 < bare.scopes.size by omega) knownToo
    (Or.inr (Nat.le_succ _)) evaluable frames

omit keeps

/-- What a run beside leaves has grown as what it began with had. -/
theorem grows_of_runsBeside
    {params : ValueEntries} {bounds : Bounds} {bare : Heap} {settled : bare.Settled}
    {ran other : Except Fault Value × Heap} (apart : heap.Apart)
    (tableCount : bare.tables.size = heap.tables.size + 2)
    (beside : RunsBeside bounds bare later settled ran other)
    (grows : (heap.bound params vars root).Grows later) :
    (heap.bound params vars root).Grows other.2 := by
  have extend := beside.keeps.2
  have scopeBound := grows.scopeCount
  rw [bound_scopeCount] at scopeBound
  constructor
  · exact extend.stores.trans grows.stores
  · exact beside.views.trans apart.views.symm
  · exact beside.keeps.1.trans grows.evaluators
  · intro id below
    rw [← grows.scopes id below]
    rw [bound_scopeCount] at below
    have held := Array.getElem?_eq_getElem (show id < later.scopes.size by omega)
    rw [held]
    exact extend.scopes id _ held
  · intro id below
    rw [← grows.tables id below]
    rw [bound_tableCount] at below
    exact beside.tables id (by omega)
  · exact Nat.le_trans grows.scopeCount extend.scopeCount
  · exact Nat.le_trans grows.tableCount extend.tableCount
  · exact Nat.le_trans grows.births extend.births

include keeps

theorem endsBeside
    (varsNamed : vars.NamedIn barred)
    (grows : (heap.bound ((.str Reference.eventSymbol, event) :: hidden) vars root).Grows later)
    (lossless : later.losses = heap.losses) {tree : Value} (known : heap.Knows tree)
    (isTree : tree.IsTreeWithout barred code)
    (owner frames : Nat) (depth : Int) :
    heap.EndsBeside (fun birth => birth = 0 ∨ data birth ∨ code birth)
      ((.str Reference.eventSymbol, event) :: hidden) vars root
      ((Eval.solve frames (.evaluate owner (heap.scopes.size + 1) tree depth)).perform
        (heap.bound ((.str Reference.eventSymbol, event) :: hidden) [] root))
      ((Eval.solve frames (.evaluate owner (heap.scopes.size + 1) tree depth)).perform
        later) := by
  let params := (.str Reference.eventSymbol, event) :: hidden
  let bare := heap.bound [(.str Reference.eventSymbol, event)] [] root
  have settled : bare.Settled := keeps.settled_bound
  have scopeCount : bare.scopes.size = heap.scopes.size + 2 := bound_scopeCount
  have tableCount : bare.tables.size = heap.tables.size + 2 := bound_tableCount
  have noneNamed : ValueEntries.NamedIn barred [] := fun _ member => nomatch member
  have alone := keeps.runsBeside
    ((Grows.refl (heap.bound params [] root)).parallels keeps.settled keeps.apart
      keeps.hiddenNamed noneNamed rfl) known isTree owner frames depth
  have other := keeps.runsBeside
    (grows.parallels keeps.settled keeps.apart keeps.hiddenNamed varsNamed lossless) known isTree
    owner frames depth
  have sameNumbers : bare.numbersBeside (heap.bound params [] root) settled.births = .identity :=
    numbersBeside_same rfl (bound_scopeCount.trans scopeCount.symm)
      (bound_tableCount.trans tableCount.symm)
  have aloneOutcome := alone.outcome
  have aloneLosses := alone.losses
  rw [sameNumbers] at aloneOutcome aloneLosses
  have numbersKeep := @numbersBeside_keeps bare later settled.births
  have fixed := settled.fixed numbersKeep
  generalize (Eval.solve frames (.evaluate owner (heap.scopes.size + 1) tree depth)).perform bare
    = ran at other aloneOutcome aloneLosses
  have sealed : (heap.ownBounds barred data code root table).Narrower .withoutClosures :=
    ⟨fun _ _ => trivial, fun _ _ => trivial, fun _ _ => trivial, fun _ _ => trivial,
      fun _ _ => trivial, fun _ _ _ => trivial, id⟩
  constructor
  · intro value isValue
    rw [other.outcome] at isValue
    cases isRan : ran.1 with
    | error fault =>
        rw [isRan] at isValue
        cases isValue
    | ok found =>
        rw [isRan] at isValue
        cases isValue
        exact Value.withoutClosures_rename found
          (Value.within_widen sealed found (other.value found isRan))
  · refine ⟨bare.numbersBeside later settled.births, ⟨numbersKeep.births, ?_, ?_⟩, ?_⟩
    · exact fun number below => numbersKeep.scopes number (by omega)
    · exact fun number below => numbersKeep.tables number (by omega)
    · rw [aloneOutcome, other.outcome]
      cases ran.1 with
      | ok value =>
          exact congrArg (fun found => Except.ok (Value.rename _ found))
            (Value.rename_identity value).symm
      | error fault => rfl
  · exact grows_of_runsBeside keeps.apart tableCount other grows
  · intro none
    have ranNone : ran.2.losses = heap.losses := by
      rw [← none, aloneLosses]
      simp
    rw [other.losses, ranNone]
    exact Settled.map_eq_of_forall fun entry member =>
      Prod.ext (fixed.losses entry member).1 (fixed.losses entry member).2
  · intro birth below unknown
    have kept := other.unlost birth below fun known =>
      known.elim unknown (Nat.not_le.mpr below)
    rw [kept, Heap.left?, Heap.left?, lossless]

end KeepsApart

/-- A variable of the inner scope is found there. -/
theorem Grows.lookup_inner
    {params vars : ValueEntries} {later : Heap}
    (grows : (heap.bound params vars root).Grows later) {name : String} {value : Value}
    (isBound : Entries.find? Value.sameKey (.str name) vars = some value) :
    later.lookup? (heap.scopes.size + 1) (.str name) = .ok (some value) := by
  have inner := grows.scopes (heap.scopes.size + 1) (by rw [bound_scopeCount]; omega)
  have isVars := grows.tables (heap.tables.size + 1) (by rw [bound_tableCount]; omega)
  rw [bound_inner] at inner
  rw [bound_vars] at isVars
  simp only [lookup?, inner, firstValueIn?, valueIn?, Heap.table, isVars, Option.getD_some,
    ValueEntries.get_str, isBound]
  rfl

/-- The event is found in the outer scope unless it is bound in the inner one. -/
theorem Grows.lookup_event
    {hidden vars : ValueEntries} {later : Heap}
    (grows : (heap.bound ((.str Reference.eventSymbol, event) :: hidden) vars root).Grows later)
    (unbound : Entries.find? Value.sameKey (.str Reference.eventSymbol) vars = none) :
    later.lookup? (heap.scopes.size + 1) (.str Reference.eventSymbol) = .ok (some event) := by
  have outer := grows.scopes heap.scopes.size (by rw [bound_scopeCount]; omega)
  have inner := grows.scopes (heap.scopes.size + 1) (by rw [bound_scopeCount]; omega)
  have params := grows.tables heap.tables.size (by rw [bound_tableCount]; omega)
  have isVars := grows.tables (heap.tables.size + 1) (by rw [bound_tableCount]; omega)
  rw [bound_outer] at outer
  rw [bound_inner] at inner
  rw [bound_params] at params
  rw [bound_vars] at isVars
  have same : Value.sameKey (.str Reference.eventSymbol) (.str Reference.eventSymbol) = true :=
    beq_self_eq_true _
  simp only [lookup?, inner, firstValueIn?, outer, valueIn?, Heap.table, isVars, params,
    Option.getD_some, ValueEntries.get_str, unbound, Entries.find?, same, if_true]
  rfl

theorem Grows.maxDepth
    {before later : Heap} (grows : before.Grows later) (owner : Nat) :
    later.maxDepth owner = before.maxDepth owner := by
  rw [Heap.maxDepth, Heap.maxDepth, Heap.config, Heap.config, grows.evaluators]

open Eval in
/-- A tree that is evaluated only when there is an event does the same beside itself, too. -/
theorem KeepsApart.endsBeside_guard
    {hidden vars : ValueEntries} {later : Heap}
    (keeps : heap.KeepsApart barred data code root table event hidden)
    (varsNamed : vars.NamedIn barred)
    (unbound : Entries.find? Value.sameKey (.str Reference.eventSymbol) vars = none)
    (grows : (heap.bound ((.str Reference.eventSymbol, event) :: hidden) vars root).Grows later)
    (lossless : later.losses = heap.losses) {tree : Value} (known : heap.Knows tree)
    (isTree : tree.IsTreeWithout barred code)
    {birth owner : Nat} (unlost : heap.left? birth = none) (frames : Nat) {depth : Int}
    (shallow : ¬ heap.maxDepth owner < depth + 1) :
    heap.EndsBeside (fun birth => birth = 0 ∨ data birth ∨ code birth)
      ((.str Reference.eventSymbol, event) :: hidden) vars root
      ((solve (frames + 2) (.evaluate owner (heap.scopes.size + 1)
        (Reference.guard birth tree) depth)).perform
          (heap.bound ((.str Reference.eventSymbol, event) :: hidden) [] root))
      ((solve (frames + 2) (.evaluate owner (heap.scopes.size + 1)
        (Reference.guard birth tree) depth)).perform later) := by
  have start := Grows.refl (heap.bound ((.str Reference.eventSymbol, event) :: hidden) [] root)
  have laterShallow : ¬ later.maxDepth owner < depth + 1 := by
    rw [grows.maxDepth]
    exact shallow
  have laterUnlost : later.left? birth = none := by
    rw [Heap.left?, lossless]
    exact unlost
  rw [perform_guard (by exact shallow) (by exact unlost) (start.lookup_event rfl),
    perform_guard laterShallow laterUnlost (grows.lookup_event unbound)]
  split
  · exact keeps.endsBeside varsNamed grows lossless known isTree owner (frames + 1) (depth + 1)
  · constructor
    · rintro _ ⟨⟩
      exact trivial
    · exact ⟨.identity, ⟨fun _ _ => rfl, fun _ _ => rfl, fun _ _ => rfl⟩, rfl⟩
    · exact grows
    · exact fun _ => lossless
    · intro birth _ _
      rw [Heap.left?, Heap.left?, lossless]

end Own

/-! ## One symbol after the other -/

/-- A variable is set in the inner one of two scopes. -/
theorem Grows.perform_define
    {heap later : Heap} {params vars : ValueEntries} {root : Nat}
    (grows : (heap.bound params vars root).Grows later) (name : String) (value : Value) :
    ∃ after,
      (Action.define (heap.scopes.size + 1) (.str name) value).perform later = (.ok ⟨⟩, after) ∧
        (heap.bound params (Entries.put Value.sameKey (.str name) value vars) root).Grows after ∧
        after.losses = later.losses := by
  have inner := grows.scopes (heap.scopes.size + 1) (by rw [bound_scopeCount]; omega)
  have isVars := grows.tables (heap.tables.size + 1) (by rw [bound_tableCount]; omega)
  have tableCount := grows.tableCount
  rw [bound_inner] at inner
  rw [bound_vars] at isVars
  rw [bound_tableCount] at tableCount
  let revised := Entries.put Value.sameKey (.str name) value vars
  have defined : later.defined (heap.scopes.size + 1) (.str name) value =
      .ok (heap.tables.size + 1, revised) := by
    simp only [Heap.defined, inner, Heap.table, isVars, Option.getD_some]
    rfl
  refine ⟨later.setTable (heap.tables.size + 1) revised, ?_, ?_, rfl⟩
  · unfold Action.define Action.reading
    simp only [bind_assoc, Action.perform_get_bind, defined]
    rfl
  · constructor
    · exact grows.stores
    · exact grows.views
    · exact grows.evaluators
    · intro id below
      rw [bound_scopeCount] at below
      refine (grows.scopes id (by rw [bound_scopeCount]; exact below)).trans ?_
      rw [bound_scopes, bound_scopes]
    · intro id below
      rw [bound_tableCount] at below
      have same := grows.tables id (by rw [bound_tableCount]; exact below)
      simp only [setTable, Array.getElem?_modify]
      by_cases isInner : heap.tables.size + 1 = id
      · subst isInner
        rw [if_pos rfl, isVars, bound_vars]
        rfl
      · rw [if_neg isInner, same]
        have cases : id < heap.tables.size ∨ id = heap.tables.size := by omega
        rcases cases with old | rfl
        · rw [bound_table_before old, bound_table_before old]
        · rw [bound_params, bound_params]
    · have scopeCount := grows.scopeCount
      rw [bound_scopeCount] at scopeCount ⊢
      exact scopeCount
    · rw [bound_tableCount, setTable, Array.size_modify]
      exact tableCount
    · exact grows.births

section Sequence

variable {heap : Heap} {params : ValueEntries} {root owner frames : Nat} {depth : Int}

/-- What comes of a tree where no symbol is bound. -/
def aloneEnding (heap : Heap) (params : ValueEntries) (root owner frames : Nat) (depth : Int)
    (tree : Value) : Except Fault Value × Heap :=
  (Eval.solve frames (.evaluate owner (heap.scopes.size + 1) tree depth)).perform
    (heap.bound params [] root)

/-- Whether each tree does the same where the symbols before it are bound as where none is. -/
def AllBeside (heap : Heap) (params : ValueEntries) (root owner frames : Nat) (depth : Int) :
    List String → List (String × Value) → Prop
  | _, [] => True
  | earlier, (name, tree) :: rest =>
      (∃ known, ∀ vars later, vars.NamedIn earlier → (heap.bound params vars root).Grows later →
        later.losses = heap.losses →
          heap.EndsBeside known params vars root
            (heap.aloneEnding params root owner frames depth tree)
            ((Eval.solve frames (.evaluate owner (heap.scopes.size + 1) tree depth)).perform
              later)) ∧
        AllBeside heap params root owner frames depth (name :: earlier) rest

/-- Whether a tree has a value where no symbol is bound and takes no items from lists. -/
def Succeeds (heap : Heap) (params : ValueEntries) (root owner frames : Nat) (depth : Int)
    (tree value : Value) : Prop :=
  (heap.aloneEnding params root owner frames depth tree).1 = .ok value ∧
    (heap.aloneEnding params root owner frames depth tree).2.losses = heap.losses

/-- Whether a symbol is bound to the value that its tree has where no symbol is bound, apart
from numbers that were given out since. -/
structure BoundTo (heap : Heap) (params : ValueEntries) (root owner frames : Nat) (depth : Int)
    (each entry : String × Value) : Prop where
  name : entry.1 = each.1
  value : ∃ (value : Value) (ρ : Renaming),
    heap.Succeeds params root owner frames depth each.2 value ∧ ρ.Keeps heap ∧
      entry.2 = value.rename ρ
  within : entry.2.Within .withoutClosures

variable {worker : Worker}

/-- A symbol is bound, and those after it are next. -/
theorem perform_bindAll_cons
    {known : Nat → Prop} {vars : ValueEntries} {later : Heap} {name : String}
    {tree value : Value}
    (works : worker (.evaluate owner (heap.scopes.size + 1) tree depth) =
      Eval.solve frames (.evaluate owner (heap.scopes.size + 1) tree depth))
    (ends : heap.EndsBeside known params vars root
      (heap.aloneEnding params root owner frames depth tree)
      ((Eval.solve frames (.evaluate owner (heap.scopes.size + 1) tree depth)).perform later))
    (succeeds : heap.Succeeds params root owner frames depth tree value)
    (rest : List (String × Value)) :
    ∃ (ρ : Renaming) (after : Heap), ρ.Keeps heap ∧
      (value.rename ρ).Within .withoutClosures ∧
      (Eval.bindAll worker ⟨owner, heap.scopes.size + 1, depth⟩ ((name, tree) :: rest)).perform
          later =
        (Eval.bindAll worker ⟨owner, heap.scopes.size + 1, depth⟩ rest).perform after ∧
      (heap.bound params (Entries.put Value.sameKey (.str name) (value.rename ρ) vars)
        root).Grows after ∧
      after.losses = heap.losses := by
  obtain ⟨isOk, lossless⟩ := succeeds
  obtain ⟨ρ, keeps, outcome⟩ := ends.outcome
  rw [isOk] at outcome
  obtain ⟨after, defined, grown, kept⟩ := ends.grows.perform_define name (value.rename ρ)
  refine ⟨ρ, after, keeps, ends.value _ outcome, ?_, grown, kept.trans (ends.losses lossless)⟩
  have evaluated : (Eval.form worker ⟨owner, heap.scopes.size + 1, depth⟩ tree).perform later =
      (.ok (value.rename ρ),
        ((Eval.solve frames (.evaluate owner (heap.scopes.size + 1) tree depth)).perform
          later).2) := by
    rw [Eval.form, works]
    exact Prod.ext outcome rfl
  rw [Eval.bindAll, Action.perform_bind_ok evaluated, Action.perform_bind_ok defined]

/-- Trees that have values alone are bound to them together. -/
theorem perform_bindAll_ok
    (symbols : List (String × Value))
    (works : ∀ each ∈ symbols, worker (.evaluate owner (heap.scopes.size + 1) each.2 depth) =
      Eval.solve frames (.evaluate owner (heap.scopes.size + 1) each.2 depth))
    {earlier : List String} (beside : heap.AllBeside params root owner frames depth earlier symbols)
    (succeed : ∀ each ∈ symbols, ∃ value,
      heap.Succeeds params root owner frames depth each.2 value)
    {vars : ValueEntries} (named : vars.NamedIn earlier) {later : Heap}
    (grows : (heap.bound params vars root).Grows later)
    (lossless : later.losses = heap.losses) :
    ∃ (values : List (String × Value)) (after : Heap),
      values.map Prod.fst = symbols.map Prod.fst ∧
      (∀ entry ∈ values, ∃ each ∈ symbols,
        heap.BoundTo params root owner frames depth each entry) ∧
      (Eval.bindAll worker ⟨owner, heap.scopes.size + 1, depth⟩ symbols).perform later =
        (.ok ⟨⟩, after) ∧
      (heap.bound params (Entries.putAll Value.sameKey
        (values.map fun each => (.str each.1, each.2)) vars) root).Grows after ∧
      after.losses = heap.losses := by
  induction symbols generalizing earlier vars later with
  | nil => exact ⟨[], later, rfl, (fun _ member => nomatch member), rfl, grows, lossless⟩
  | cons each rest inductionHypothesis =>
      obtain ⟨name, tree⟩ := each
      obtain ⟨value, succeeds⟩ := succeed _ List.mem_cons_self
      obtain ⟨known, ends⟩ := beside.1
      obtain ⟨ρ, mid, keeps, within, first, grown, midLossless⟩ :=
        perform_bindAll_cons (works _ List.mem_cons_self) (ends vars later named grows lossless)
          succeeds rest
      obtain ⟨values, after, names, areBound, others, last⟩ := inductionHypothesis
        (fun each member => works each (List.mem_cons_of_mem _ member)) beside.2
        (fun each member => succeed each (List.mem_cons_of_mem _ member))
        (named.put name (value.rename ρ)) grown midLossless
      refine ⟨(name, value.rename ρ) :: values, after, congrArg (List.cons name) names, ?_,
        first.trans others, last⟩
      intro entry member
      rcases List.mem_cons.mp member with rfl | member
      · exact ⟨_, List.mem_cons_self, rfl, ⟨value, ρ, succeeds, keeps, rfl⟩, within⟩
      · obtain ⟨each, isSymbol, boundTo⟩ := areBound entry member
        exact ⟨each, List.mem_cons_of_mem _ isSymbol, boundTo⟩

/-- The first tree that fails alone fails together with those before it. -/
theorem perform_bindAll_error
    (before : List (String × Value)) {name : String} {tree : Value} {fault : Fault}
    (rest : List (String × Value))
    (works : ∀ each ∈ before ++ [(name, tree)],
      worker (.evaluate owner (heap.scopes.size + 1) each.2 depth) =
        Eval.solve frames (.evaluate owner (heap.scopes.size + 1) each.2 depth))
    {earlier : List String}
    (beside : heap.AllBeside params root owner frames depth earlier
      (before ++ (name, tree) :: rest))
    (succeed : ∀ each ∈ before, ∃ value,
      heap.Succeeds params root owner frames depth each.2 value)
    (fails : (heap.aloneEnding params root owner frames depth tree).1 = .error fault)
    {vars : ValueEntries} (named : vars.NamedIn earlier) {later : Heap}
    (grows : (heap.bound params vars root).Grows later)
    (lossless : later.losses = heap.losses) :
    ∃ after, (Eval.bindAll worker ⟨owner, heap.scopes.size + 1, depth⟩
      (before ++ (name, tree) :: rest)).perform later = (.error fault, after) := by
  induction before generalizing earlier vars later with
  | nil =>
      obtain ⟨known, ends⟩ := beside.1
      obtain ⟨ρ, -, outcome⟩ := (ends vars later named grows lossless).outcome
      rw [fails] at outcome
      have failed : (Eval.form worker ⟨owner, heap.scopes.size + 1, depth⟩ tree).perform later =
          (.error fault,
            ((Eval.solve frames (.evaluate owner (heap.scopes.size + 1) tree depth)).perform
              later).2) := by
        rw [Eval.form, works _ List.mem_cons_self]
        exact Prod.ext outcome rfl
      exact ⟨_, Action.perform_bind_error failed⟩
  | cons each before inductionHypothesis =>
      obtain ⟨other, form⟩ := each
      obtain ⟨value, succeeds⟩ := succeed _ List.mem_cons_self
      obtain ⟨known, ends⟩ := beside.1
      obtain ⟨ρ, mid, -, -, first, grown, midLossless⟩ :=
        perform_bindAll_cons (works _ List.mem_cons_self) (ends vars later named grows lossless)
          succeeds (before ++ (name, tree) :: rest)
      obtain ⟨after, others⟩ := inductionHypothesis
        (fun each member => works each (List.mem_cons_of_mem _ member)) beside.2
        (fun each member => succeed each (List.mem_cons_of_mem _ member))
        (named.put other (value.rename ρ)) grown midLossless
      exact ⟨after, first.trans others⟩

end Sequence

end Heap

end CueScript
