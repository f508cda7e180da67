import CueScript.Proofs.Symbols.Guard
import CueScript.Proofs.Symbols.Scan

/-!
# Null safety

A null-safe expression evaluates the tree of a symbol only when there is an event.  So it
never evaluates one when it is called without an event, and otherwise it does what the
expression that is not null-safe does: only one level deeper, and with lists of its own
around the trees.

Two things can be told apart nevertheless.  A tree can set the event of the trees after it
to `nil`, and it can ask its evaluator how deeply it is nested.
-/

namespace CueScript

open Value Reference

/-- The same request, but not for a null-safe expression. -/
def ExpressionSource.withoutNullSafety (source : ExpressionSource) : ExpressionSource :=
  { source with nullSafe := false }

/-- An evaluator is asked how deeply it is nested. -/
def asksHostDepth : Watch
  | .call (.member (.evaluator _) operation) _ :: _, _ => operation == "host_depth"
  | _, _ => false

/-- The tree of a symbol begins to be evaluated where there is no event.  The body that
comes after the trees is not meant. -/
def losesEvent : Watch
  | [.evaluate _ inside form _, .evaluate _ _ (.list [.symbol "let", _, body] _) _, .enter ..,
      .call ..], heap => !sameBirth form body && !heap.hasEvent inside
  | _, _ => false

namespace Expression

/-! ## Without an event -/

/-- The symbols of a source that is null-safe have guarded trees. -/
theorem symbolsOf_guarded
    {source : ExpressionSource} (isSafe : source.nullSafe = true) (forms : List Value) :
    symbolsOf source forms =
      (symbolsOf source.withoutNullSafety forms).map fun each => (each.1, nullSafe each.2) := by
  simp only [symbolsOf, referencesOf, isSafe, scan, List.map_map]
  rfl

/-- A null-safe expression that is called without an event evaluates its body with its
symbols bound to `nil`, and nothing else. -/
theorem run_without_event
    {source : ExpressionSource} {forms : List Value} {heap : Heap} (globals : Nat)
    (isSafe : source.nullSafe = true) (deep : 3 ≤ source.config.maxDepth)
    (unlost : ∀ birth, heap.births ≤ birth → heap.left? birth = none)
    (areTrees : AllTrees forms) (arguments : Arguments) (noEvent : arguments.event = .nil) :
    ∃ next,
      ((compiledExpression source forms globals heap).run arguments).run
          (compiledHeap source forms heap) =
        (evaluateBody (compiledExpression source forms globals heap) arguments
          ((symbolsOf source forms).map fun each => (each.1, .nil))
          ((bodyTree forms).tellApart next).1).perform (compiledHeap source forms heap) := by
  have isFunction : (compiledExpression source forms globals heap).function =
      functionOf source forms heap := rfl
  have evaluated (next : Nat) := perform_evaluateBody isFunction
    (compiledHeap_scope source forms heap) arguments
    ((symbolsOf source forms).map fun each => (each.1, .nil)) ((bodyTree forms).tellApart next).1
  by_cases none : symbolsOf source forms = []
  · refine ⟨heap.births + 1, ?_⟩
    rw [run_of_no_symbols globals unlost areTrees none, evaluated, none]
    rfl
  · refine ⟨bodyBirth source forms heap, ?_⟩
    have compiledUnlost (birth : Nat) (fresh : heap.births < birth) :
        (compiledHeap source forms heap).left? birth = .none := by
      rw [compiledHeap_left]
      exact unlost birth (Nat.le_of_lt fresh)
    have guarded : ∀ each ∈ calledSymbols source forms heap globals arguments,
        ∃ birth tree, each.2 = guard birth tree ∧
          (compiledHeap source forms heap).left? birth = .none := by
      have told := allGuarded_told (heap.births + 1)
        (symbolsOf source.withoutNullSafety forms)
      rw [← symbolsOf_guarded isSafe forms] at told
      intro each member
      have rootedUnlost (birth : Nat) (above : heap.births + 1 ≤ birth) :
          (rootedHeap source forms heap).left? birth = .none := by
        rw [Heap.left?, rootedHeap_losses]
        exact unlost birth (Nat.le_of_succ_le above)
      obtain ⟨birth, tree, isGuard, above⟩ := (told.current rootedUnlost).current
        (fun birth above => by exact compiledUnlost birth above) each member
      exact ⟨birth, tree, isGuard, compiledUnlost birth above⟩
    have deeper : ¬ (compiledHeap source forms heap).maxDepth heap.evaluators.size < 3 := by
      rw [compiledHeap_maxDepth]
      omega
    have noEventHere : Entries.find? sameKey (.str eventSymbol)
        (parameterVars (compiledExpression source forms globals heap) arguments) =
          some .nil := by
      simp only [parameterVars, noEvent, Entries.find?]
      rfl
    have ran := perform_letIn_absent heap.scopes.size (Eval.frameLimit - 5) 2 noEventHere deeper
      guarded (compiledUnlost _ (Nat.lt_of_succ_lt (lt_listBirth source forms heap)))
      ((bodyTree forms).tellApart (bodyBirth source forms heap)).1
    have sameVars : (calledSymbols source forms heap globals arguments).map
          (fun each => (Value.str each.1, Value.nil)) =
        ((symbolsOf source forms).map fun each => (each.1, Value.nil)).map fun each =>
          (Value.str each.1, each.2) := by
      have spelled := congrArg (List.map fun name => (Value.str name, Value.nil))
        (map_fst_tellSymbolsApart (heap.births + 1) (symbolsOf source forms))
      simpa only [calledSymbols, toldSymbols, List.map_map, Function.comp_def] using spelled
    rw [sameVars] at ran
    rw [run_of_symbols globals (by omega) unlost areTrees none, evaluated,
      if_neg (by simpa using none)]
    exact ran

/-! ## Compiling with and without null safety -/

/-- A site under other numbers. -/
def siteRename (ρ : Renaming) (site : Site) : Site := { site with scope := ρ.scopes site.scope }

theorem twin_rootVars {pairing : Pairing} (lineage : Option Lineage) :
    Twin pairing (List.map (renameEntry pairing.numbers)) (rootVars lineage)
      (rootVars lineage) := by
  have builtins : (Builtin.table.map fun entry =>
        (Value.str entry.1, Value.builtin entry.2)).map (renameEntry pairing.numbers) =
      Builtin.table.map fun entry => (Value.str entry.1, Value.builtin entry.2) := by
    rw [List.map_map]
    rfl
  unfold rootVars
  cases lineage with
  | none => exact .pure builtins.symm
  | some each =>
      refine .bind .newId fun id => .pure ?_
      rw [← put_rename, builtins]
      rfl

theorem twin_openRoot
    {pairing : Pairing} (isOpen : pairing.Open) (evaluator : Nat) (lineage : Option Lineage) :
    Twin pairing (siteRename pairing.numbers) (openRoot evaluator lineage)
      (openRoot evaluator lineage) := by
  have newVariables (vars : ValueEntries) :
      Twin pairing (Variables.rename pairing.numbers) (Action.newVariables vars)
        (Action.newVariables (vars.map (renameEntry pairing.numbers))) :=
    .bind (.change fun _ _ like => like.openTable vars) fun table => .pure rfl
  refine .bind (twin_rootVars lineage) fun vars => .bind (newVariables vars) fun opened => ?_
  refine .bind (.change fun _ _ like => ?_) fun scope => .pure rfl
  exact like.openScope (fun table _ => isOpen.1 table) (fun isApart => absurd isApart isOpen.2) none
    nofun

section Compiled

variable {source : ExpressionSource} {forms : List Value} {heap : Heap}

/-- The numbers at which the null-safe expression has one more list. -/
def guardMarks (source : ExpressionSource) (forms : List Value) (heap : Heap) : List Nat :=
  treeEnds (heap.births + 1) (symbolsOf source.withoutNullSafety forms)

theorem lt_guardMarks :
    ∀ mark ∈ guardMarks source forms heap, heap.births < mark :=
  fun mark member => le_treeEnds mark member

/-- The numbers of the null-safe expression for those of the other one. -/
def guardNumbers (source : ExpressionSource) (forms : List Value) (heap : Heap) : Renaming :=
  .shifting (guardMarks source forms heap) [] [] fun mark member =>
    Nat.zero_lt_of_lt (lt_guardMarks mark member)

theorem guardNumbers_keeps : (guardNumbers source forms heap).Keeps heap where
  births _ below := shifted_before fun mark member =>
    Nat.lt_trans below (lt_guardMarks mark member)
  scopes _ _ := rfl
  tables _ _ := rfl

/-- The null-safe expression may be nested deeper; nothing else differs but numbers. -/
def guardPairing (source : ExpressionSource) (forms : List Value) (heap : Heap)
    (alarm : Fault) : Pairing where
  numbers := guardNumbers source forms heap
  slack := True
  aside _ := none
  spoken _ := True
  alike _ _ _ isAside := nomatch isAside
  ownScopes := 0
  alarm := alarm

/-- The trees of the symbols of a source are known. -/
theorem knows_symbols
    (tableKnown : ∀ entry ∈ source.table, heap.Knows entry.2.extract) :
    ∀ each ∈ symbolsOf source.withoutNullSafety forms, heap.Knows each.2 := by
  intro each member
  obtain ⟨reference, isReference, rfl⟩ := List.mem_map.mp member
  obtain ⟨entry, isUsed, rfl⟩ := List.mem_map.mp isReference
  exact tableKnown entry (List.mem_filter.mp (List.mem_mergeSort.mp isUsed)).1

/-- From the end of the symbols on, the null-safe expression is further on by one number
for each of them. -/
theorem guardNumbers_after
    {number : Nat} (after : (toldSymbols source.withoutNullSafety forms heap).2 ≤ number) :
    (guardNumbers source forms heap).births number =
      number + (symbolsOf source.withoutNullSafety forms).length := by
  have all : shifted (guardMarks source forms heap) number =
      number + (guardMarks source forms heap).length :=
    shifted_after fun mark member => Nat.le_trans (treeEnds_le mark member) after
  rw [guardMarks, length_treeEnds] at all
  exact all

theorem guards_toldSymbols
    (isSafe : source.nullSafe = true)
    (tableKnown : ∀ entry ∈ source.table, heap.Knows entry.2.extract) :
    Guards (guardNumbers source forms heap)
        (toldSymbols source.withoutNullSafety forms heap).1 (toldSymbols source forms heap).1 ∧
      (toldSymbols source forms heap).2 =
        (toldSymbols source.withoutNullSafety forms heap).2 +
          (symbolsOf source.withoutNullSafety forms).length := by
  have keeps := @guardNumbers_keeps source forms heap
  have unmoved (number : Nat) (below : number < heap.births + 1) :
      (guardNumbers source forms heap).births number < heap.births + 1 + 0 := by
    have same : (guardNumbers source forms heap).births number = number :=
      shifted_before fun mark member => Nat.lt_of_lt_of_le below (lt_guardMarks mark member)
    omega
  have told := guards_told (heap.births + 1) 0 (symbolsOf source.withoutNullSafety forms)
    (fun each member => knows_symbols tableKnown each member _ keeps) unmoved fun _ _ => rfl
  rw [← symbolsOf_guarded isSafe forms] at told
  exact told

/-- The same forms are told apart as bodies of both expressions. -/
theorem tellApart_body
    (isSafe : source.nullSafe = true)
    (tableKnown : ∀ entry ∈ source.table, heap.Knows entry.2.extract)
    (areTrees : AllTrees forms) :
    (bodyTree forms).tellApart (bodyBirth source forms heap) =
      (((bodyTree forms).tellApart (bodyBirth source.withoutNullSafety forms heap)).1.rename
          (guardNumbers source forms heap),
        ((bodyTree forms).tellApart (bodyBirth source.withoutNullSafety forms heap)).2 +
          (symbolsOf source.withoutNullSafety forms).length) := by
  have further := (@guards_toldSymbols source forms heap isSafe tableKnown).2
  have moved : Moved (guardNumbers source forms heap)
      (symbolsOf source.withoutNullSafety forms).length
      (bodyBirth source.withoutNullSafety forms heap)
      ((bodyTree forms).tellApart (bodyBirth source.withoutNullSafety forms heap)).2 :=
    fun number above _ => guardNumbers_after (Nat.le_of_succ_le above)
  have told := tellApart_rename _ _ (bodyTree forms) moved
  rw [rename_of_isTree _ (bodyTree forms) ⟨rfl, trivial, areTrees⟩] at told
  have start : bodyBirth source forms heap = bodyBirth source.withoutNullSafety forms heap +
      (symbolsOf source.withoutNullSafety forms).length := by
    simp only [bodyBirth, further]
    omega
  rw [start]
  exact told

/-- What both expressions give out after their trees are told apart. -/
theorem guardNumbers_told
    (isSafe : source.nullSafe = true)
    (tableKnown : ∀ entry ∈ source.table, heap.Knows entry.2.extract)
    (areTrees : AllTrees forms) (further : Nat) :
    (guardNumbers source forms heap).births
        ((toldHeap source.withoutNullSafety forms heap).births + further) =
      (toldHeap source forms heap).births + further := by
  rw [toldHeap_births, toldHeap_births]
  by_cases none : symbolsOf source.withoutNullSafety forms = []
  · have noneSafe : symbolsOf source forms = [] := by
      rw [symbolsOf_guarded isSafe forms, none, List.map_nil]
    rw [treeOf_of_no_symbols none, treeOf_of_no_symbols noneSafe]
    have noMarks : guardMarks source forms heap = [] := by
      rw [guardMarks, none, treeEnds]
    change shifted (guardMarks source forms heap) _ = _
    rw [noMarks]
    rfl
  · have someSafe : symbolsOf source forms ≠ [] := by
      rw [symbolsOf_guarded isSafe forms]
      simpa using none
    have body := @tellApart_body source forms heap isSafe tableKnown areTrees
    have above := tellApart_le (bodyBirth source.withoutNullSafety forms heap) (bodyTree forms)
    rw [tellApart_treeOf none, tellApart_treeOf someSafe, guardNumbers_after]
    · simp only [listBirth, body]
      omega
    · simp only [listBirth, bodyBirth] at above ⊢
      omega

/-- Both expressions are compiled in heaps that are alike. -/
theorem like_compiledHeap
    (settled : heap.Settled) (isSafe : source.nullSafe = true)
    (tableKnown : ∀ entry ∈ source.table, heap.Knows entry.2.extract)
    (areTrees : AllTrees forms) (alarm : Fault) :
    (rootedHeap source.withoutNullSafety forms heap).Like
        (guardPairing source forms heap alarm) (rootedHeap source forms heap) ∧
      (compiledHeap source.withoutNullSafety forms heap).Like
        (guardPairing source forms heap alarm) (compiledHeap source forms heap) := by
  have told : (toldHeap source.withoutNullSafety forms heap).Like
      (guardPairing source forms heap alarm) (toldHeap source forms heap) :=
    settled.like guardNumbers_keeps (fun _ => rfl) (fun isApart => isApart) rfl _
      (guardNumbers_told isSafe tableKnown areTrees) (fun _ => rfl) fun _ => rfl
  have isOpen : (guardPairing source forms heap alarm).Open := ⟨fun _ => rfl, id⟩
  have ends := twin_openRoot isOpen heap.evaluators.size source.lineage _ _ told
  have rooted := ((perform_openRoot source.withoutNullSafety forms heap) ▸
    (perform_openRoot source forms heap) ▸ ends : TwinEnds _ _ _ _).of_ok.2
  exact ⟨rooted, (rooted.skip 1).openStore (source.label ++ " locals") []⟩

/-! ### Trees and the body are told apart -/

/-- A number that a heap knows of is one that it has given out. -/
theorem lt_births_of_knows
    (settled : heap.Settled) {items : List Value} {birth : Nat}
    (known : heap.Knows (.list items birth)) :
    birth < heap.births := by
  have positive : ∀ mark ∈ [heap.births], 0 < mark := by
    intro mark member
    rw [List.mem_singleton.mp member]
    exact settled.births
  have same := known (.shifting [heap.births] [] [] positive)
    ⟨fun number below => shifted_before fun mark member => by
      rw [List.mem_singleton.mp member]
      exact below, fun _ _ => rfl, fun _ _ => rfl⟩
  rw [rename_list] at same
  have shift : shifted [heap.births] birth = birth := (Value.list.inj same).2
  refine Nat.lt_of_not_le fun later => ?_
  rw [shifted_after fun mark member => (List.mem_singleton.mp member).symm ▸ later] at shift
  simp at shift

theorem isList_current
    {holder : Heap} {value : Value} {items : List Value} {birth : Nat}
    (isList : holder.current value = .list items birth) :
    ∃ held, value = .list held birth := by
  unfold Heap.current at isList
  split at isList
  · exact ⟨items, isList⟩
  · cases value <;> simp only [Value.current, reduceCtorEq] at isList
    all_goals
      split at isList <;> cases isList
      all_goals exact ⟨_, rfl⟩

theorem lt_of_toldSymbols
    (settled : heap.Settled) {next : Nat} (fresh : heap.births ≤ next)
    {symbols : List (String × Value)} (known : ∀ each ∈ symbols, heap.Knows each.2) :
    ∀ each ∈ (tellSymbolsApart next symbols).1, ∀ items birth, each.2 = .list items birth →
      birth < (tellSymbolsApart next symbols).2 := by
  induction symbols generalizing next with
  | nil => exact fun _ member => nomatch member
  | cons first rest inductionHypothesis =>
      obtain ⟨name, tree⟩ := first
      have told := tellApart_le next tree
      have later := tellSymbolsApart_le (tree.tellApart next).2 rest
      intro each member items birth isList
      rcases List.mem_cons.mp member with rfl | member
      · have here : birth < (tree.tellApart next).2 := by
          have knownTree := known _ List.mem_cons_self
          cases tree with
          | list held own =>
              by_cases unnumbered : own = 0
              · simp only [Value.tellApart, numbered, if_pos unnumbered, list.injEq] at isList ⊢
                omega
              · simp only [Value.tellApart, numbered, if_neg unnumbered, list.injEq] at isList ⊢
                have below := lt_births_of_knows settled knownTree
                have inside := tellItemsApart_le next held
                omega
          | float number own => cases number <;> cases isList
          | _ => cases isList
        exact Nat.lt_of_lt_of_le here later
      · exact inductionHypothesis (Nat.le_trans fresh told)
          (fun each member => known each (List.mem_cons_of_mem _ member)) each member items birth
          isList

/-- No tree of a symbol is the same list as the body. -/
theorem sameBirth_body
    (settled : heap.Settled)
    (known : ∀ each ∈ symbolsOf source forms, heap.Knows each.2)
    (globals : Nat) (arguments : Arguments) :
    ∀ each ∈ calledSymbols source forms heap globals arguments,
      sameBirth each.2 ((bodyTree forms).tellApart (bodyBirth source forms heap)).1 = false := by
  intro each member
  obtain ⟨before, isBefore, rfl⟩ := List.mem_map.mp member
  obtain ⟨told, isTold, rfl⟩ := List.mem_map.mp isBefore
  have above := tellItemsApart_le (bodyBirth source forms heap) (.symbol "do" :: forms)
  simp only [bodyTree, Value.tellApart, numbered, if_pos]
  generalize isValue : Heap.current _ (Heap.current _ told.2) = value
  cases value with
  | list items birth =>
      obtain ⟨held, isList⟩ := isList_current isValue
      obtain ⟨inner, isInner⟩ := isList_current isList
      have below : birth < (toldSymbols source forms heap).2 :=
        lt_of_toldSymbols settled (Nat.le_succ _) known told isTold inner birth isInner
      have different : birth ≠ (tellItemsApart (bodyBirth source forms heap)
          (.symbol "do" :: forms)).2 := by
        rw [bodyBirth] at above ⊢
        omega
      simp [sameBirth, different]
  | float number birth => cases number <;> rfl
  | _ => rfl

/-! ### The runs of both expressions -/

theorem covered_guardPairing (alarm : Fault) :
    (guardPairing source forms heap alarm).CoveredBy (asksHostDepth.or losesEvent) := by
  intro task around holder quiet
  have isOpen : (guardPairing source forms heap alarm).Open := ⟨fun _ => rfl, id⟩
  have notAsked : asksHostDepth (task :: around) holder = false :=
    (Bool.or_eq_false_iff.mp quiet).1
  cases task with
  | evaluate owner inside form depth =>
      exact ⟨isOpen.1.unbacked.meets inside, fun _ _ => .inl isOpen.1⟩
  | read value name =>
      cases value with
      | store id => exact False.elim
      | scope id => exact ⟨.inl isOpen, .inl isOpen.1.unbacked⟩
      | evaluator id => exact False.elim
      | closure id shown params rest body inside owner =>
          exact .inl (isOpen.1.unbacked.meets inside)
      | _ => exact trivial
  | enter function args depth => exact isOpen.1.unbacked.permits_enter function args depth
  | call function args =>
      cases function with
      | member receiver operation =>
          cases receiver with
          | scope id => exact isOpen
          | evaluator id => exact ⟨isOpen, fun _ => ne_of_beq_false notAsked⟩
          | _ => exact trivial
      | _ => exact trivial

/-- A scope is opened in heaps that are alike. -/
theorem like_opened
    {pairing : Pairing} (unbacked : pairing.Unbacked) {left right : Heap}
    (like : left.Like pairing right) {inside table : Nat} {outer : List Nat}
    (isScope : left.scopes[inside]? = some ⟨.table table, outer⟩) (vars : ValueEntries) :
    (left.opened vars (inside :: outer)).Like pairing
      (right.opened (vars.map (renameEntry pairing.numbers))
        ((inside :: outer).map pairing.numbers.scopes)) := by
  have isOther := like.scopes inside (unbacked.meets inside)
  rw [isScope, unbacked.scope_eq, Option.map_some, Scope.rename] at isOther
  have twins : Twin pairing pairing.numbers.scopes
      (Action.childScope inside vars >>= pure)
      (Action.childScope (pairing.numbers.scopes inside)
        (vars.map (renameEntry pairing.numbers)) >>= pure) :=
    .childScope_bind (unbacked.meets inside) vars fun _ _ => .pure rfl
  have ends := twins left right like
  rw [bind_pure, bind_pure, Heap.perform_childScope isScope, Heap.perform_childScope isOther]
    at ends
  exact ends.of_ok.2

/-- A call of the null-safe expression ends as that of the other one, as long as there is
an event whenever the tree of a symbol is evaluated and no evaluator is asked how deeply
it is nested. -/
theorem twin_nullSafe_call
    (settled : heap.Settled) (isSafe : source.nullSafe = true)
    (deep : 3 ≤ source.config.maxDepth)
    (tableKnown : ∀ entry ∈ source.table, heap.Knows entry.2.extract)
    (areTrees : AllTrees forms) (globals : Nat) (alarm : Fault) (arguments : Arguments)
    (eventKnown : heap.Knows arguments.event) :
    TwinEnds (guardPairing source forms heap alarm) (rename (guardNumbers source forms heap))
      ((Eval.watched (asksHostDepth.or losesEvent) alarm Eval.frameLimit []
        ((compiledExpression source.withoutNullSafety forms globals heap).callTask
          arguments)).perform (compiledHeap source.withoutNullSafety forms heap))
      (((compiledExpression source forms globals heap).run arguments).run
        (compiledHeap source forms heap)) := by
  obtain ⟨likeRooted, likeCompiled⟩ :=
    like_compiledHeap settled isSafe tableKnown areTrees alarm
  have covered := @covered_guardPairing source forms heap alarm
  have sameEvent := eventKnown _ (@guardNumbers_keeps source forms heap)
  by_cases none : symbolsOf source.withoutNullSafety forms = []
  · have noneSafe : symbolsOf source forms = [] := by
      rw [symbolsOf_guarded isSafe forms, none, List.map_nil]
    have unmoved : Moved (guardNumbers source forms heap) 0 (heap.births + 1)
        ((bodyTree forms).tellApart (heap.births + 1)).2 := by
      intro number _ _
      change shifted (guardMarks source forms heap) number = number
      rw [guardMarks, none, treeEnds]
      rfl
    have body : ((bodyTree forms).tellApart (heap.births + 1)).1 =
        ((bodyTree forms).tellApart (heap.births + 1)).1.rename
          (guardNumbers source forms heap) := by
      have told := tellApart_rename _ 0 (bodyTree forms) unmoved
      rw [rename_of_isTree _ (bodyTree forms) ⟨rfl, trivial, areTrees⟩] at told
      exact congrArg Prod.fst told
    have sameFunction : (functionOf source.withoutNullSafety forms heap).rename
        (guardNumbers source forms heap) = functionOf source forms heap := by
      have birth := likeRooted.nextBirth_zero
      have present := likeRooted.current ((bodyTree forms).tellApart (heap.births + 1)).1
      change (guardNumbers source forms heap).births _ = _ at birth
      change (rootedHeap source forms heap).current
        (Value.rename (guardNumbers source forms heap) _) = _ at present
      simp only [functionOf, treeOf_of_no_symbols none, treeOf_of_no_symbols noneSafe,
        rename_closure, List.map_cons, List.map_nil, birth]
      rw [← body] at present
      rw [present]
      rfl
    have twins := Eval.workers_twin covered (.inl (Eq.refl Eval.frameLimit)) [] _ _
      (.call (functionOf source.withoutNullSafety forms heap)
        [arguments.event, .store (arguments.locals.getD heap.stores.size),
          .store (arguments.globals.getD globals)]) _ _ likeCompiled
    change TwinEnds _ _ _ ((Eval.solve Eval.frameLimit (.call
      ((functionOf source.withoutNullSafety forms heap).rename (guardNumbers source forms heap))
      [arguments.event.rename (guardNumbers source forms heap), _, _])).perform _) at twins
    rw [sameFunction, sameEvent] at twins
    exact twins
  · have someSafe : symbolsOf source forms ≠ [] := by
      rw [symbolsOf_guarded isSafe forms]
      simpa using none
    have shallow : 1 ≤ source.config.maxDepth := Int.le_trans (by decide) deep
    have unlost : ∀ birth, heap.births ≤ birth → heap.left? birth = .none :=
      fun _ => settled.unlost
    have left := @perform_call_of_symbols source.withoutNullSafety forms heap globals shallow
      unlost areTrees none arguments (asksHostDepth.or losesEvent) alarm (Eval.frameLimit - 3)
      (fun _ => rfl) (fun _ => rfl) fun _ => rfl
    have sameParameters : (parameterVars
          (compiledExpression source.withoutNullSafety forms globals heap) arguments).map
            (renameEntry (guardNumbers source forms heap)) =
        parameterVars (compiledExpression source forms globals heap) arguments := by
      simp only [parameterVars, List.map_cons, List.map_nil, renameEntry_mk, rename_str,
        rename_store, sameEvent]
      rfl
    have likeOpened := like_opened (fun _ => rfl) likeCompiled
      (compiledHeap_scope source.withoutNullSafety forms heap)
      (parameterVars (compiledExpression source.withoutNullSafety forms globals heap) arguments)
    rw [show (guardPairing source forms heap alarm).numbers = guardNumbers source forms heap
      from rfl, sameParameters] at likeOpened
    have guards := ((@guards_toldSymbols source forms heap isSafe tableKnown).1.current
      likeRooted).current likeOpened
    have body := @tellApart_body source forms heap isSafe tableKnown areTrees
    have lists : (guardNumbers source forms heap).births
        (listBirth source.withoutNullSafety forms heap) = listBirth source forms heap := by
      have above := tellApart_le (bodyBirth source.withoutNullSafety forms heap) (bodyTree forms)
      rw [guardNumbers_after, listBirth, listBirth, body]
      rw [bodyBirth] at above
      exact Nat.le_of_succ_le above
    have scopes : (compiledHeap source.withoutNullSafety forms heap).scopes.size =
        (compiledHeap source forms heap).scopes.size := likeCompiled.nextScope_zero
    have apart := sameBirth_body settled (@knows_symbols source forms heap tableKnown) globals
      arguments
    have unbacked : (guardPairing source forms heap alarm).Unbacked := fun _ => rfl
    have twins := Eval.twin_letIn_guarded covered ⟨trivial, id⟩ (.inl fun _ => rfl)
      (Eval.frameLimit - 3) [bindingTask source.withoutNullSafety forms heap,
        (compiledExpression source.withoutNullSafety forms globals heap).enterTask arguments 0,
        (compiledExpression source.withoutNullSafety forms globals heap).callTask arguments]
      heap.evaluators.size
      (unbacked.meets (compiledHeap source.withoutNullSafety forms heap).scopes.size)
      (listBirth source.withoutNullSafety forms heap) 2
      ((bodyTree forms).tellApart (bodyBirth source.withoutNullSafety forms heap)).1 guards
      (fun inner each member holder quiet => by
        have notLost := (Bool.or_eq_false_iff.mp quiet).2
        change (!sameBirth each.2 _ && !holder.hasEvent inner) = false at notLost
        simpa [apart each member] using notLost) _ _ likeOpened
    rw [run_of_symbols globals shallow unlost areTrees someSafe arguments, ← lists, body,
      ← scopes]
    exact left ▸ twins

end Compiled

theorem run_callStrictly (expression : Expression) (arguments : Arguments) (heap : Heap) :
    (expression.callStrictly arguments).run heap =
      match (expression.run arguments).run heap with
      | (.ok value, after) => (.ok value, after)
      | (.error fault, after) => (.error (expression.callReport fault), after) := by
  simp only [callStrictly, StateT.run, bind, StateT.bind]
  rcases expression.run arguments heap with ⟨_ | _, after⟩ <;> rfl

theorem callReport_of_isLimit
    {fault : Fault} (isLimit : fault.IsLimit) (expression : Expression) :
    (expression.callReport fault).errorClass = .recursionLimit := by
  cases fault with
  | depthExceeded limit => rfl
  | failed failure =>
      cases failure with
      | stackExhausted => rfl
      | _ => exact isLimit.elim
  | _ => exact isLimit.elim

/-- A heap with a store to share, in which an event has arrived. -/
def received : Heap := (Action.newId.perform sharing).2

/-- The event that has arrived. -/
def beat : Arguments := { event := .event 2 .record [("bpm", .int 12800)] }

theorem received_settled : received.Settled where
  births := by decide
  tables id entries isTable entry member := by
    have isFirst : received.tables = #[[]] := rfl
    rw [isFirst, List.getElem?_toArray] at isTable
    rcases id with _ | id <;> cases isTable
    cases member
  views _ member := nomatch member
  losses _ member := nomatch member
  stores id store isStore := by
    have isFirst : received.stores = #[⟨Session.globalsName, 0⟩] := rfl
    rw [isFirst, List.getElem?_toArray] at isStore
    rcases id with _ | id <;> cases isStore
    decide
  scopes id scope isScope := by
    have noScopes : received.scopes = #[] := rfl
    rw [noScopes] at isScope
    cases isScope

/-- An expression with a symbol for the speed of a beat. -/
def speedSource : ExpressionSource where
  text := "[speed speed]"
  table := [("speed", bindingOf "speed" (.list [.symbol ".bpm", .symbol eventSymbol] 0))]
  nullSafe := true

theorem received_knows :
    (∀ entry ∈ speedSource.table, received.Knows entry.2.extract) ∧
      received.Knows beat.event := by
  constructor
  · intro entry member ρ _
    rw [List.mem_singleton.mp member]
    simp [bindingOf, ρ.births_zero]
  · intro ρ keeps
    simp only [beat, rename_event, List.map_cons, List.map_nil, renameMember_mk, rename_int,
      keeps.births 2 (by decide)]

/-- The numbers in a result. -/
def numbersIn : Except Report Value → List (Option Int)
  | .ok (.list items _) => items.map toInt?
  | .ok value => [value.toInt?]
  | .error _ => []

theorem numbersIn_map (ρ : Renaming) (result : Except Report Value) :
    numbersIn (result.map (rename ρ)) = numbersIn result := by
  cases result with
  | error report => rfl
  | ok value =>
      cases value with
      | list items birth =>
          simp [Except.map, numbersIn, Function.comp_def]
      | _ => simp [Except.map, numbersIn, rename, toInt?]

/-- The forms of `[speed speed]`. -/
def speedForms : List Value := [.vector [.symbol "speed", .symbol "speed"] 0]

/-- An expression with two symbols, the first of which takes the event away. -/
def resettingSource : ExpressionSource where
  text := "[a b]"
  table :=
    [("a", bindingOf "a" (.list [.symbol ".define",
      .list [.symbol ".env", .list [.symbol "fn", .vector [] 0, .int 1] 0] 0,
      .str eventSymbol, .symbol "nil"] 0)),
      ("b", bindingOf "b" (.int 1))]
  nullSafe := true

/-- An expression with a symbol for how deeply its tree is nested. -/
def askingSource : ExpressionSource where
  text := "a"
  table :=
    [("a", bindingOf "a" (.list [.symbol ".host-depth",
      .list [.symbol ".evaluator", .list [.symbol "fn", .vector [] 0, .int 1] 0] 0] 0))]
  nullSafe := true

/-- Whether an expression that is null-safe gives something else for an event than the one
that is not null-safe, under whatever other numbers. -/
def Disagrees (source : ExpressionSource) : Prop :=
  ∃ expression plain,
    ((compile source 0).run received).1.outcome = .ok expression ∧
      ((compile source.withoutNullSafety 0).run received).1.outcome = .ok plain ∧
      (∃ value,
        ((expression.callStrictly beat).run ((compile source 0).run received).2).1 =
          .ok value) ∧
      ∀ ρ : Renaming,
        ((expression.callStrictly beat).run ((compile source 0).run received).2).1 ≠
          ((plain.callStrictly beat).run
            ((compile source.withoutNullSafety 0).run received).2).1.map (rename ρ)

theorem disagrees_of_numbers
    {source : ExpressionSource} {forms : List Value} (shallow : 0 ≤ source.config.maxDepth)
    (formed : formsOf received source.text.toList source.label = .ok forms)
    {first : Option Int} {rest others : List (Option Int)} (different : first :: rest ≠ others)
    (safe : numbersIn (((compiledExpression source forms 0 received).callStrictly beat).run
      (compiledHeap source forms received)).1 = first :: rest)
    (plain : numbersIn (((compiledExpression source.withoutNullSafety forms 0
      received).callStrictly beat).run
        (compiledHeap source.withoutNullSafety forms received)).1 = others) :
    Disagrees source := by
  have unlost : ∀ birth, received.births ≤ birth → received.left? birth = none :=
    fun _ => received_settled.unlost
  obtain ⟨compiled, isHeap⟩ := @compile_eq source forms received 0 shallow unlost formed
  obtain ⟨plainCompiled, isPlainHeap⟩ :=
    @compile_eq source.withoutNullSafety forms received 0 shallow unlost formed
  refine ⟨_, _, compiled, plainCompiled, ?_, fun ρ same => ?_⟩
  · rw [isHeap]
    generalize (StateT.run (callStrictly _ beat) _).1 = result at safe
    cases result with
    | ok value => exact ⟨value, rfl⟩
    | error report => cases safe
  · rw [isHeap, isPlainHeap] at same
    have numbers := congrArg numbersIn same
    rw [numbersIn_map, safe, plain] at numbers
    exact different numbers

end Expression

end CueScript
