import CueScript.Proofs.Frame.Course
import CueScript.Proofs.Symbols.Scan
import CueScript.Proofs.Twin.Fixes

/-!
# Calls after others

Calls of an expression that read members of events only keep all scopes and what is in
them.  So a call that comes after others differs from a first one only by what stores hold
and by what lists have lost.  It ends in the same way as a first call with the same contents,
apart from the numbers of the scopes in closures, unless a list that the expression was
compiled with has lost items since: a quoted list is one thing in all calls.
-/

namespace CueScript

/-- Everything may be met but closures, scopes and evaluators. -/
def Bounds.withoutClosures : Bounds := { Bounds.anything with escapes := False }

/-- Only closures and scopes tell under which numbers scopes are known. -/
theorem Renaming.fixes_withoutClosures
    {ρ : Renaming} (unmoved : ∀ number, ρ.births number = number) :
    ρ.Fixes .withoutClosures :=
  ⟨unmoved, False.elim⟩

/-! ## The function of an expression -/

namespace Heap

variable {heap : Heap} {ρ : Renaming}

/-- What lists hold now is known where everything is. -/
theorem Settled.holdings_rename
    (settled : heap.Settled) (noViews : heap.views = []) (keeps : ρ.Keeps heap) (budget : Nat)
    (path : List Nat) :
    (heap.holdings budget path).Like ρ (heap.holdings budget path) := by
  induction budget generalizing path with
  | zero => exact ⟨fun _ => rfl, fun _ => rfl⟩
  | succ budget inductionHypothesis =>
      constructor
      · intro birth
        have same : heap.left? (ρ.births birth) =
            (heap.left? birth).map (List.map (Value.rename ρ)) := by
          cases isLeft : heap.left? birth with
          | some items =>
              obtain ⟨below, known⟩ := settled.losses _ (mem_losses isLeft)
              rw [keeps.births birth below, isLeft, Option.map_some,
                Settled.map_eq_of_forall fun item member => known item member ρ keeps]
          | none =>
              cases isMoved : heap.left? (ρ.births birth) with
              | none => rfl
              | some items =>
                  have below := (settled.losses _ (mem_losses isMoved)).1
                  have back := ρ.births_injective (keeps.births _ below)
                  rw [back, isLeft] at isMoved
                  cases isMoved
        simp only [holdings, same]
        cases heap.left? birth with
        | none => rfl
        | some items =>
            exact congrArg some (Value.currentItems_rename (inductionHypothesis path) items)
      · intro birth
        simp [holdings, viewed?, noViews, Entries.find?]

theorem Settled.knows_current
    (settled : heap.Settled) (noViews : heap.views = []) (keeps : ρ.Keeps heap) {value : Value}
    (same : value.rename ρ = value) :
    (heap.current value).rename ρ = heap.current value := by
  unfold current
  split
  · exact same
  · have like := settled.holdings_rename noViews keeps
      ((heap.views.length + 1) * (heap.losses.length + 1)) []
    rw [present, ← Value.current_rename like, same]

end Heap

namespace Expression

theorem rename_treeOf
    {ρ : Renaming} {source : ExpressionSource} {forms : List Value}
    (known : ∀ entry ∈ source.table, entry.2.extract.rename ρ = entry.2.extract)
    (areTrees : Value.AllTrees forms) :
    (treeOf source forms).rename ρ = treeOf source forms := by
  have body : (bodyTree forms).rename ρ = bodyTree forms :=
    Value.rename_of_isTree ρ _ ⟨rfl, trivial, areTrees⟩
  have symbols : ∀ each ∈ symbolsOf source forms, each.2.rename ρ = each.2 := by
    intro each member
    obtain ⟨reference, isReference, rfl⟩ := List.mem_map.mp member
    obtain ⟨entry, isUsed, rfl⟩ := List.mem_map.mp isReference
    have same := known entry (List.mem_filter.mp (List.mem_mergeSort.mp isUsed)).1
    cases source.nullSafe with
    | false => exact same
    | true => simp [Reference.ofBinding, Reference.nullSafe, same, ρ.births_zero]
  have pairs : (boundPairs (symbolsOf source forms)).map (Value.rename ρ) =
      boundPairs (symbolsOf source forms) := by
    refine Heap.Settled.map_eq_of_forall fun item member => ?_
    obtain ⟨each, isSymbol, inPair⟩ := List.mem_flatMap.mp member
    rcases List.mem_cons.mp inPair with rfl | inPair
    · rfl
    · rw [List.mem_singleton.mp inPair]
      exact symbols each isSymbol
  unfold treeOf boundTree
  split
  · exact body
  · simp only [bindingForm, Value.rename_list, Value.rename_vector, List.map_cons, List.map_nil,
      Value.rename_symbol, pairs, body, ρ.births_zero]

/-- The function of a compiled expression has no other numbers than those that have been
given out. -/
theorem knows_functionOf
    {source : ExpressionSource} {forms : List Value} {heap : Heap} (settled : heap.Settled)
    (apart : heap.Apart) (tableKnown : ∀ entry ∈ source.table, heap.Knows entry.2.extract)
    (areTrees : Value.AllTrees forms) :
    (compiledHeap source forms heap).Knows (functionOf source forms heap) := by
  intro ρ keeps
  have noViews := (rootedHeap_views source forms heap).trans apart.views
  have births := le_rootedHeap source forms heap
  have toldLe := toldHeap_le_rootedHeap source forms heap
  rw [toldHeap_births] at toldLe
  obtain ⟨vars, isTables, -⟩ := rootedHeap_tables source forms heap
  have later : ∀ number ≤ (rootedHeap source forms heap).births, ρ.births number = number :=
    fun number below => keeps.births number (Nat.lt_succ_of_le below)
  have scopeCount : (rootedHeap source forms heap).scopes.size = heap.scopes.size + 1 := by
    rw [rootedHeap_scopes, Array.size_push]
  have keepsRooted : ρ.Keeps (rootedHeap source forms heap) :=
    ⟨fun number below => later number (Nat.le_of_lt below),
      fun number below => keeps.scopes number below,
      fun number below => keeps.tables number (Nat.lt_of_lt_of_le below (by
        change _ ≤ ((rootedHeap source forms heap).tables.push []).size
        rw [Array.size_push]
        exact Nat.le_succ _))⟩
  have keepsHeap : ρ.Keeps heap :=
    ⟨fun number below => later number (by omega),
      fun number below => keepsRooted.scopes number (by omega),
      fun number below => keepsRooted.tables number (by rw [isTables, Array.size_push]; omega)⟩
  have tree := rename_treeOf (fun entry member => tableKnown entry member ρ keepsHeap) areTrees
  have told := @Value.tellApart_rename ρ (heap.births + 1) 0 (treeOf source forms)
    fun number above below => later number (by omega)
  rw [tree] at told
  have sameTold := (congrArg Prod.fst told).symm
  have current := (settled_rootedHeap settled source forms).knows_current noViews keepsRooted
    sameTold
  simp only [functionOf, Value.rename_closure, List.map_cons, List.map_nil, current,
    later _ (Nat.le_refl _), keepsRooted.scopes heap.scopes.size (by omega)]

end Expression

/-! ## Heaps after calls -/

namespace Heap

variable {first later : Heap}

theorem Apart.keeps_setEntries (apart : first.Apart) (id : Nat) (entries : ValueEntries) :
    first.KeepsScopes (first.setEntries id entries) := by
  have retains := apart.retains_setEntries id entries
  unfold setEntries at retains ⊢
  split
  · rename_i store isStore
    simp only [isStore] at retains
    exact ⟨retains.apart, rfl, rfl, retains.scopes, retains.tables, Nat.le_refl _,
      Nat.le_of_eq (by simp [setTable]), Nat.le_refl _⟩
  · exact .refl apart

theorem Apart.keeps_births (apart : first.Apart) (count : Nat) :
    first.KeepsScopes { first with births := first.births + count } :=
  let retains := apart.retains_births (first.births + count)
  ⟨retains.apart, rfl, rfl, retains.scopes, retains.tables, Nat.le_refl _, Nat.le_refl _,
    Nat.le_add_right _ _⟩

/-- A heap in which stores hold, and lists have left, what they do in a later heap, and in
which as many numbers have been given out. -/
def withContents (first later : Heap) : Heap :=
  { first with
    tables := first.tables.mapIdx fun table entries =>
      if first.isOfStore table then later.table table else entries
    losses := later.losses
    births := later.births }

/-- Whether no store holds closures, and no list that has lost items. -/
structure HoldsNoClosures (heap : Heap) : Prop where
  stores : ∀ (id : Nat) (store : Store), heap.stores[id]? = some store →
    Value.EntriesWithin .withoutClosures (heap.table store.table)
  losses : ∀ entry ∈ heap.losses, Value.AllWithin .withoutClosures entry.2

theorem size_withContents : (first.withContents later).tables.size = first.tables.size :=
  Array.size_mapIdx

/-- What is kept of scopes is the same in both. -/
theorem KeepsScopes.tables_withContents
    (keeps : first.KeepsScopes later) {id : Nat} (below : id < first.tables.size) :
    later.tables[id]? = (first.withContents later).tables[id]? := by
  have isTable : (first.withContents later).tables[id]? =
      some (if first.isOfStore id then later.table id else first.tables[id]) := by
    simp [withContents, Array.getElem?_mapIdx, Array.getElem?_eq_getElem below]
  have belowToo := Nat.lt_of_lt_of_le below keeps.tableCount
  rw [isTable]
  cases isOwned : first.isOfStore id with
  | true =>
      rw [if_pos rfl, table, Array.getElem?_eq_getElem belowToo]
      rfl
  | false =>
      rw [if_neg Bool.false_ne_true, keeps.tables id below, Array.getElem?_eq_getElem below]
      intro other store isStore same
      rw [isOfStore_iff.mpr ⟨other, store, isStore, same⟩] at isOwned
      cases isOwned

/-- The numbers of scopes and tables after some calls for those of a first call. -/
def laterNumbers (first later : Heap) : Renaming :=
  .shifting [] (List.replicate (later.scopes.size - first.scopes.size) first.scopes.size)
    (List.replicate (later.tables.size - first.tables.size) first.tables.size)
    fun _ member => absurd member List.not_mem_nil

/-- A first call beside a later one. -/
def besideLater (first later : Heap) (alarm : Fault) : Pairing where
  numbers := first.laterNumbers later
  slack := False
  aside _ := none
  spoken _ := True
  alike _ _ _ isAside := nomatch isAside
  ownScopes := 0
  alarm := alarm

theorem laterNumbers_births (number : Nat) :
    (first.laterNumbers later).births number = number :=
  shifted_before fun _ member => absurd member List.not_mem_nil

theorem laterNumbers_keeps : (first.laterNumbers later).Keeps (first.withContents later) where
  births number _ := laterNumbers_births number
  scopes number below := shifted_before fun mark member => by
    rw [List.eq_of_mem_replicate member]
    exact below
  tables number below := shifted_before fun mark member => by
    rw [List.eq_of_mem_replicate member, ← @size_withContents first later]
    exact below

theorem laterNumbers_nextScope (le : first.scopes.size ≤ later.scopes.size) (further : Nat) :
    (first.laterNumbers later).scopes (first.scopes.size + further) =
      later.scopes.size + further := by
  change shifted _ _ = _
  rw [shifted_after fun mark member => ?_, List.length_replicate]
  · omega
  · rw [List.eq_of_mem_replicate member]
    exact Nat.le_add_right _ _

theorem laterNumbers_nextTable (le : first.tables.size ≤ later.tables.size) (further : Nat) :
    (first.laterNumbers later).tables (first.tables.size + further) =
      later.tables.size + further := by
  change shifted _ _ = _
  rw [shifted_after fun mark member => ?_, List.length_replicate]
  · omega
  · rw [List.eq_of_mem_replicate member]
    exact Nat.le_add_right _ _

/-- Other numbers for later scopes change nothing where no closure is held. -/
theorem KeepsScopes.fixed_withContents
    (keeps : first.KeepsScopes later) (settled : first.Settled) (apart : first.Apart)
    (holds : later.HoldsNoClosures) :
    (first.withContents later).Fixed (first.laterNumbers later) := by
  have unmoved := @laterNumbers_births first later
  have numbers := @laterNumbers_keeps first later
  have keepsFirst : (first.laterNumbers later).Keeps first :=
    ⟨fun number _ => unmoved number, numbers.scopes, fun number below =>
      numbers.tables number (by rw [size_withContents]; exact below)⟩
  have old := settled.fixed keepsFirst
  constructor
  · exact numbers.scopes
  · exact numbers.tables
  · intro id entries isTable
    have below : id < first.tables.size := by
      rw [← @size_withContents first later]
      exact (Array.getElem?_eq_some_iff.mp isTable).1
    have isLater := keeps.tables_withContents below
    rw [isTable] at isLater
    cases isOwned : first.isOfStore id with
    | true =>
        obtain ⟨other, store, isStore, rfl⟩ := isOfStore_iff.mp isOwned
        have within := holds.stores other store (keeps.stores ▸ isStore)
        rw [table, isLater] at within
        exact (Renaming.fixes_withoutClosures unmoved).map_renameEntry_eq entries within
    | false =>
        refine old.tables id entries ?_
        rw [← keeps.tables id below, isLater]
        intro other store isStore same
        rw [isOfStore_iff.mpr ⟨other, store, isStore, same⟩] at isOwned
        cases isOwned
  · intro entry member
    change entry ∈ first.views at member
    rw [apart.views] at member
    cases member
  · exact fun entry member => ⟨unmoved entry.1,
      (Renaming.fixes_withoutClosures unmoved).map_rename_eq entry.2 (holds.losses entry member)⟩
  · exact old.stores
  · exact old.scopes

/-- A first call and a later one with the same contents start from heaps that are alike. -/
theorem KeepsScopes.like_later
    (keeps : first.KeepsScopes later) (settled : first.Settled) (apart : first.Apart)
    (holds : later.HoldsNoClosures) (alarm : Fault) :
    (first.withContents later).Like (first.besideLater later alarm) later := by
  have fixed : (first.withContents later).Fixed (first.besideLater later alarm).numbers :=
    keeps.fixed_withContents settled apart holds
  refine fixed.like (fun _ => rfl) id rfl ?_ ?_ ?_ rfl keeps.stores keeps.evaluators ?_ ?_ ?_
  · intro id below
    rw [size_withContents] at below
    exact keeps.tables_withContents below
  · intro id below
    have isScope := Array.getElem?_eq_getElem below
    rw [isScope]
    exact keeps.scopes id _ isScope
  · exact keeps.apart.views.trans apart.views.symm
  · exact fun further => laterNumbers_births _
  · exact laterNumbers_nextScope keeps.scopeCount
  · intro further
    rw [size_withContents]
    exact laterNumbers_nextTable keeps.tableCount further

end Heap

namespace Expression

/-- The heaps that calls of an expression lead to which read members of events only, while
events arrive and stores get other entries between them. -/
inductive Calls (expression : Expression) (first : Heap) : Heap → Prop
  | none : expression.Calls first first
  | call {heap : Heap} (calls : expression.Calls first heap) (arguments : Arguments)
      (never : Eval.NeverMeets leavesEvents (expression.callTask arguments) heap) :
      expression.Calls first ((expression.run arguments).run heap).2
  | number {heap : Heap} (calls : expression.Calls first heap) (count : Nat) :
      expression.Calls first { heap with births := heap.births + count }
  | fill {heap : Heap} (calls : expression.Calls first heap) (id : Nat)
      (entries : ValueEntries) :
      expression.Calls first (heap.setEntries id entries)

theorem Calls.keepsScopes
    {expression : Expression} {first later : Heap} (calls : expression.Calls first later)
    (apart : first.Apart) :
    first.KeepsScopes later := by
  induction calls with
  | none => exact .refl apart
  | call calls arguments never kept => exact kept.trans (never.keepsScopes kept.apart)
  | number calls count kept => exact kept.trans (kept.apart.keeps_births count)
  | fill calls id entries kept => exact kept.trans (kept.apart.keeps_setEntries id entries)

/-- A piece of work that reads members of events only keeps all scopes and what is in them.
So if no list that was there when an expression was compiled has lost items since, a call of
it that comes after others ends as a first call does with the same event and contents of
stores, and leaves the same in all stores and lists, apart from the numbers of scopes that
closures were made in. -/
theorem run_after_calls {before : Heap} (apart : before.Apart) :
    (∀ task : Task, Eval.NeverMeets leavesEvents task before →
      ∀ (id : Nat) (scope : Scope), before.scopes[id]? = some scope →
        ((Eval.perform task).perform before).2.scopes[id]? = some scope ∧
          ∃ table, scope.vars = .table table ∧
            ((Eval.perform task).perform before).2.table table = before.table table) ∧
    ∀ {source : ExpressionSource} {globals : Nat} {later : Heap} {expression : Expression},
      before.Settled →
      (∀ entry ∈ source.table, before.Knows entry.2.extract) →
      ((compile source globals).run before).1.outcome = .ok expression →
      expression.Calls ((compile source globals).run before).2 later →
      later.HoldsNoClosures →
      (∀ birth < ((compile source globals).run before).2.births,
        later.left? birth = ((compile source globals).run before).2.left? birth) →
      let first := ((compile source globals).run before).2.withContents later
      ∃ ρ : Renaming, ρ.Keeps first ∧
        ∀ arguments : Arguments, first.Knows arguments.event →
          Eval.NeverMeets leavesEvents (expression.callTask arguments) first →
            ((expression.run arguments).run later).1 =
                ((expression.run arguments).run first).1.map (Value.rename ρ) ∧
              (∀ id, ((expression.run arguments).run later).2.entries id =
                (((expression.run arguments).run first).2.entries id).map
                  (Value.renameEntry ρ)) ∧
              ∀ birth, ((expression.run arguments).run later).2.left? birth =
                (((expression.run arguments).run first).2.left? birth).map
                  (List.map (Value.rename ρ)) := by
  constructor
  · intro task never id scope isScope
    have keeps := never.keepsScopes apart
    exact ⟨keeps.scopes id scope isScope, keeps.variablesKept apart isScope⟩
  intro source globals later expression settled tableKnown compiled calls holds kept
  have shallow := shallow_of_compile compiled
  obtain ⟨forms, formed⟩ := formsOf_of_compile compiled
  have areTrees := allTrees_of_read (read_of_formsOf formed).1
  obtain ⟨isExpression, isHeap⟩ := compile_eq globals shallow (fun _ => settled.unlost) formed
  cases isExpression.symm.trans compiled
  rw [isHeap] at calls kept ⊢
  have compiledApart := (retains_compiledHeap apart source forms).apart
  have compiledSettled := settled_compiledHeap settled source forms
  have keeps := calls.keepsScopes compiledApart
  refine ⟨(compiledHeap source forms before).laterNumbers later, Heap.laterNumbers_keeps,
    fun arguments eventKnown never => ?_⟩
  let first := (compiledHeap source forms before).withContents later
  obtain ⟨alarm, quiet⟩ := Regime.exists_alarm
    (((compiledExpression source forms globals before).run arguments).run first)
  let pairing := (compiledHeap source forms before).besideLater later alarm
  have like : first.Like pairing later :=
    keeps.like_later compiledSettled compiledApart holds alarm
  have functionKnown : (functionOf source forms before).rename pairing.numbers =
      functionOf source forms before := by
    refine knows_functionOf settled apart tableKnown areTrees _ ⟨fun number _ =>
      Heap.laterNumbers_births number, Heap.laterNumbers_keeps.scopes, fun number below => ?_⟩
    exact Heap.laterNumbers_keeps.tables number (by rw [Heap.size_withContents]; exact below)
  let expression := compiledExpression source forms globals before
  have tasks : Task.Twin pairing (expression.callTask arguments)
      (expression.callTask arguments) := by
    have twin : Task.Twin pairing (.call (functionOf source forms before)
        [arguments.event, .store (arguments.locals.getD expression.locals),
          .store (arguments.globals.getD expression.globals)]) _ := .call _ _
    have eventSame : arguments.event.rename pairing.numbers = arguments.event :=
      eventKnown _ Heap.laterNumbers_keeps
    simp only [List.map_cons, List.map_nil, functionKnown, Value.rename_store, eventSame] at twin
    exact twin
  have covered : pairing.CoveredBy leavesEvents :=
    Pairing.coveredBy_leavesEvents (fun _ => trivial) fun _ => rfl
  obtain ⟨alike, outcome⟩ := never.like covered id tasks like quiet
  refine ⟨outcome, alike.entries, fun birth => ?_⟩
  have left := alike.left_items birth
  rw [show pairing.numbers.births birth = birth from Heap.laterNumbers_births birth] at left
  exact left

/-! ### Two calls -/

/-- A source that counts its calls. -/
def countingSource : ExpressionSource where
  text := "(store! locals 1 (inc (fetch locals 1 0)))"
  table := []

/-- The forms of `(store! locals 1 (inc (fetch locals 1 0)))`. -/
def countingForms : List Value :=
  let count := Value.list [.symbol "fetch", .symbol "locals", .int 1, .int 0] 0
  [.list [.symbol "store!", .symbol "locals", .int 1, .list [.symbol "inc", count] 0] 0]

/-- Whether all keys and values are numbers. -/
def areNumbers (entries : ValueEntries) : Bool :=
  entries.all fun entry => entry.1.toInt?.isSome && entry.2.toInt?.isSome

theorem entriesWithin_of_areNumbers
    {entries : ValueEntries} (numbers : areNumbers entries = true) :
    Value.EntriesWithin .withoutClosures entries := by
  have within (value : Value) (isNumber : value.toInt?.isSome = true) :
      value.Within .withoutClosures := by
    cases value with
    | int _ | bool _ => exact trivial
    | _ => cases isNumber
  rw [Value.entriesWithin_iff]
  intro entry member
  have both := List.all_eq_true.mp numbers entry member
  rw [Bool.and_eq_true] at both
  exact both.imp (within _) (within _)

/-- The number in a result. -/
def numberIn (result : Except Fault Value) : Option Int := result.toOption.bind Value.toInt?

theorem run_after_calls_counting :
    ∃ expression,
      ((compile countingSource 0).run sharing).1.outcome = .ok expression ∧
        let once := ((expression.run {}).run ((compile countingSource 0).run sharing).2).2
        let first := ((compile countingSource 0).run sharing).2.withContents once
        (∃ ρ : Renaming, ((expression.run {}).run once).1 =
          ((expression.run {}).run first).1.map (Value.rename ρ)) ∧
        numberIn ((expression.run {}).run once).1 = some 2 := by
  have characters : countingSource.text.toList =
      ['(', 's', 't', 'o', 'r', 'e', '!', ' ', 'l', 'o', 'c', 'a', 'l', 's', ' ', '1', ' ', '(',
        'i', 'n', 'c', ' ', '(', 'f', 'e', 't', 'c', 'h', ' ', 'l', 'o', 'c', 'a', 'l', 's', ' ',
        '1', ' ', '0', ')', ')', ')'] := by
    decide +kernel
  have formed : formsOf sharing countingSource.text.toList countingSource.label =
      .ok countingForms := by
    rw [characters]
    rfl
  have noSymbols : symbolsOf countingSource countingForms = [] := by
    simp [symbolsOf, referencesOf, Reference.scan, countingSource]
  have settled : sharing.Settled :=
    settled_openStore settled_empty _ fun _ member => absurd member List.not_mem_nil
  obtain ⟨compiled, isHeap⟩ := compile_eq 0 (by decide) (fun _ => settled.unlost) formed
  let expression := compiledExpression countingSource countingForms 0 sharing
  let start := compiledHeap countingSource countingForms sharing
  let once := ((expression.run {}).run start).2
  have calm : ((Eval.watched leavesEvents (.malformed "") Eval.frameLimit []
        (expression.callTask {})).perform start).1.isOk = true ∧
      ((Eval.watched leavesEvents (.malformed "") Eval.frameLimit []
        (expression.callTask {})).perform (start.withContents once)).1.isOk = true ∧
      once.losses.length = 0 ∧
      (once.stores.all fun store => areNumbers (once.table store.table)) = true ∧
      numberIn ((expression.run {}).run once).1 = some 2 := by
    simp only [expression, start, once, compiledExpression, functionOf, compiledHeap, builtHeap,
      rootedHeap, toldHeap, treeOf_of_no_symbols noSymbols, synthesize_eq, ofParts]
    decide +kernel
  obtain ⟨firstOk, secondOk, noLosses, numbers, isTwo⟩ := calm
  have lossless : once.losses = [] := List.eq_nil_of_length_eq_zero noLosses
  have holds : once.HoldsNoClosures := by
    constructor
    · intro id store isStore
      obtain ⟨below, rfl⟩ := Array.getElem?_eq_some_iff.mp isStore
      exact entriesWithin_of_areNumbers (Array.all_eq_true.mp numbers id below)
    · intro entry member
      rw [lossless] at member
      cases member
  have kept : ∀ birth < start.births, once.left? birth = start.left? birth := by
    intro birth _
    rw [Heap.left?, lossless, Heap.left?, show start.losses = [] from rfl]
  have tableKnown : ∀ entry ∈ countingSource.table, sharing.Knows entry.2.extract :=
    fun _ member => absurd member List.not_mem_nil
  refine ⟨expression, compiled, ?_⟩
  have apart : sharing.Apart := Heap.apart_empty.openStore _ _
  have again := @(run_after_calls apart).2 countingSource 0 once expression settled tableKnown
    compiled
  rw [isHeap] at again ⊢
  obtain ⟨ρ, -, calls⟩ := again (.call .none {} (.of_isOk firstOk)) holds kept
  exact ⟨⟨ρ, (calls {} (fun _ _ => rfl) (.of_isOk secondOk)).1⟩, isTwo⟩

/-- A source that takes an item from a list in its code. -/
def forgettingSource : ExpressionSource where
  text := "(forget! '(1) 1)"
  table := []

/-- The forms of `(forget! '(1) 1)`. -/
def forgettingForms : List Value :=
  [.list [.symbol "forget!", .quoted (.list [.int 1] 0), .int 1] 0]

theorem formed_forgetting :
    formsOf sharing forgettingSource.text.toList forgettingSource.label = .ok forgettingForms := by
  have characters : forgettingSource.text.toList =
      ['(', 'f', 'o', 'r', 'g', 'e', 't', '!', ' ', '\'', '(', '1', ')', ' ', '1', ')'] := by
    decide +kernel
  rw [characters]
  rfl

theorem symbolsOf_forgetting : symbolsOf forgettingSource forgettingForms = [] := by
  simp [symbolsOf, referencesOf, Reference.scan, forgettingSource]

/-- A call takes an item from a list in the code, and the next one does not find it, although
stores hold nothing before and after. -/
theorem run_after_calls_forgets :
    ∃ expression,
      ((compile forgettingSource 0).run sharing).1.outcome = .ok expression ∧
        let first := ((compile forgettingSource 0).run sharing).2
        let once := (expression.run {}).run first
        Eval.NeverMeets leavesEvents (expression.callTask {}) first ∧
          (first.entries 0).length = 0 ∧ (first.entries expression.locals).length = 0 ∧
          (once.2.entries 0).length = 0 ∧ (once.2.entries expression.locals).length = 0 ∧
          once.1.isOk = true ∧ ((expression.run {}).run once.2).1.isOk = false := by
  have settled : sharing.Settled :=
    settled_openStore settled_empty _ fun _ member => absurd member List.not_mem_nil
  obtain ⟨compiled, isHeap⟩ :=
    compile_eq 0 (by decide) (fun _ => settled.unlost) formed_forgetting
  refine ⟨_, compiled, ?_⟩
  rw [isHeap]
  have never : Eval.NeverMeets leavesEvents
      ((compiledExpression forgettingSource forgettingForms 0 sharing).callTask {})
      (compiledHeap forgettingSource forgettingForms sharing) := by
    refine @Eval.NeverMeets.of_isOk _ _ _ (.malformed "") ?_
    simp only [compiledExpression, functionOf, compiledHeap, builtHeap, rootedHeap, toldHeap,
      treeOf_of_no_symbols symbolsOf_forgetting, synthesize_eq, ofParts]
    decide +kernel
  refine ⟨never, ?_⟩
  simp only [compiledExpression, functionOf, compiledHeap, builtHeap, rootedHeap, toldHeap,
    treeOf_of_no_symbols symbolsOf_forgetting, synthesize_eq, ofParts]
  decide +kernel

end Expression

end CueScript
