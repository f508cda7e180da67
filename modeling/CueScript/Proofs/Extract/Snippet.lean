import CueScript.Proofs.Extract.Remains

/-!
# What a symbol means

A convenience symbol means the same whatever else a text mentions, as long as the trees of a
table keep to themselves and take no items from lists.
-/

namespace CueScript

open Reference

/-- Whether the trees of a table keep to themselves: none mentions another symbol of the table
or one that leads to closures or stores, and their lists are no data and have lost nothing. -/
structure ExpressionSource.KeepsToItself (source : ExpressionSource) (heap : Heap)
    (data : Nat → Prop) : Prop where
  distinct : (Entries.keys source.table).Nodup
  known : ∀ entry ∈ source.table, heap.Knows entry.2.extract
  trees : ∀ entry ∈ source.table, entry.2.extract.IsTreeWithout (source.barred entry.1)
    fun birth => birth = 0 ∨ heap.IsUntouched data birth

/-- The body of a call with symbols begins to be evaluated. -/
def beginsBody : Watch
  | [.evaluate _ _ form _, .evaluate _ _ (.list [.symbol "let", _, body] _) _, .enter ..,
      .call ..], _ => Value.sameBirth form body
  | _, _ => false

/-- The body begins only where nothing but a call and the binding of its symbols is under
way. -/
theorem beginsBody_inside
    (sub : Task) (inner : List Task) (first second third fourth : Task) (heap : Heap) :
    beginsBody (sub :: inner ++ [first, second, third, fourth]) heap = false := by
  unfold beginsBody
  split
  · rename_i same
    have lengths := congrArg List.length same
    simp at lengths
  · rfl

namespace Expression

variable {source : ExpressionSource} {forms : List Value} {heap : Heap} {data : Nat → Prop}

/-! ## The symbols of a text -/

theorem symbolsOf_eq (source : ExpressionSource) (forms : List Value) :
    symbolsOf source forms = withTrees source (symbolsOf source.withoutNullSafety forms) := by
  simp only [symbolsOf, referencesOf, scan, withTrees, List.map_map]
  rfl

/-- The symbols of a text are in order, and their trees are those of the table. -/
theorem keepToThemselves_symbolsOf
    (keepsToItself : source.KeepsToItself heap data) (forms : List Value) :
    KeepToThemselves source heap data (symbolsOf source.withoutNullSafety forms) := by
  have ofTable : ∀ each ∈ symbolsOf source.withoutNullSafety forms,
      ∃ entry ∈ source.table, each = (entry.1, entry.2.extract) := by
    intro each member
    obtain ⟨reference, isReference, rfl⟩ := List.mem_map.mp member
    obtain ⟨entry, isUsed, rfl⟩ := List.mem_map.mp isReference
    exact ⟨entry, (List.mem_filter.mp (List.mem_mergeSort.mp isUsed)).1, rfl⟩
  constructor
  · exact List.pairwise_map.mpr (@scan_pairwise forms _ keepsToItself.distinct false)
  · intro each member
    obtain ⟨entry, isEntry, rfl⟩ := ofTable each member
    exact List.mem_map_of_mem isEntry
  · intro each member
    obtain ⟨entry, isEntry, rfl⟩ := ofTable each member
    exact keepsToItself.known entry isEntry
  · intro each member
    obtain ⟨entry, isEntry, rfl⟩ := ofTable each member
    exact keepsToItself.trees entry isEntry

theorem mentions_symbol {name other : String} (mentions : (Value.symbol name).Mentions other) :
    other = name := by
  cases mentions
  rfl

/-- A text that is one symbol of the table binds that symbol only. -/
theorem symbolsOf_single
    (distinct : (Entries.keys source.table).Nodup) {name : String} {tree : Value}
    (member : (name, tree) ∈ symbolsOf source.withoutNullSafety forms) (text : String) :
    name.toList.head? ≠ some ':' ∧
      symbolsOf (source.withText text) [.symbol name] = withTrees source [(name, tree)] := by
  obtain ⟨reference, isReference, same⟩ := List.mem_map.mp member
  obtain ⟨rfl, rfl⟩ := Prod.mk.inj same
  obtain ⟨⟨form, -, mentions⟩, tree, found, made⟩ := (mem_scan_iff distinct).mp isReference
  have noKeyword := (Value.mem_postOrder_of_mentions mentions).2
  refine ⟨noKeyword, ?_⟩
  let single := scan [.symbol reference.name] source.table false
  have isSingle : reference ∈ single :=
    (mem_scan_iff distinct).mpr
      ⟨⟨_, List.mem_singleton_self _, .symbol noKeyword⟩, tree, found, made⟩
  have only : ∀ other ∈ single, other = reference := by
    intro other isOther
    obtain ⟨⟨form, isForm, mentionsOther⟩, otherTree, otherFound, otherMade⟩ :=
      (mem_scan_iff distinct).mp isOther
    rw [List.mem_singleton.mp isForm] at mentionsOther
    have sameName := mentions_symbol mentionsOther
    rw [sameName, found] at otherFound
    cases otherFound
    rw [otherMade, made, sameName]
    rfl
  have inOrder : single.Pairwise fun each later => each.name < later.name :=
    scan_pairwise distinct false
  have isOne : single = [reference] := by
    generalize single = references at isSingle only inOrder
    match references with
    | [] => cases isSingle
    | [first] => rw [only first List.mem_cons_self]
    | first :: second :: rest =>
        have less := (List.pairwise_cons.mp inOrder).1 second List.mem_cons_self
        rw [only first List.mem_cons_self,
          only second (List.mem_cons_of_mem _ List.mem_cons_self)] at less
        exact absurd less (String.lt_irrefl _)
  rw [symbolsOf_eq]
  exact congrArg (fun references => withTrees source (references.map fun each =>
    (each.name, each.extract))) isOne

/-- Where several symbols are told apart, each has its tree, from the number on at which those
before it end. -/
theorem exists_of_mem_told
    {symbols : List (String × Value)} {first : Nat} {each : String × Value}
    (member : each ∈ (tellSymbolsApart first (withTrees source symbols)).1) :
    ∃ front name tree back, symbols = front ++ (name, tree) :: back ∧
      each = (name, ((symbolTree source tree).tellApart
        (tellSymbolsApart first (withTrees source front)).2).1) := by
  induction symbols generalizing first with
  | nil => cases member
  | cons head rest inductionHypothesis =>
      obtain ⟨name, tree⟩ := head
      rcases List.mem_cons.mp member with rfl | member
      · exact ⟨[], name, tree, rest, rfl, rfl⟩
      · obtain ⟨front, other, form, back, rfl, rfl⟩ := inductionHypothesis member
        exact ⟨(name, tree) :: front, other, form, back, rfl, rfl⟩

theorem isOneOf_symbolsOf
    (distinct : (Entries.keys source.table).Nodup) {front back : List (String × Value)}
    {name : String} {tree : Value}
    (isSplit : symbolsOf source.withoutNullSafety forms = front ++ (name, tree) :: back)
    (text : String) :
    IsOneOf source forms text name tree front back := by
  have member : (name, tree) ∈ symbolsOf source.withoutNullSafety forms := by
    rw [isSplit]
    exact List.mem_append_right _ List.mem_cons_self
  exact ⟨(symbolsOf_eq source forms).trans (congrArg (withTrees source) isSplit),
    (symbolsOf_single distinct member text).2⟩

/-! ## One call for each symbol -/

/-- A text that is one symbol has a form that is fit. -/
theorem formsOf_single
    {name text : String} (isRead : read text.toList = .ok [.symbol name]) (label : String) :
    formsOf heap text.toList label = .ok [.symbol name] := by
  unfold formsOf
  rw [isRead]
  rfl

/-- What comes of a call whose text is one symbol. -/
def ranAlone (source : ExpressionSource) (heap : Heap) (globals : Nat) (arguments : Arguments)
    (text name : String) : Except Fault Value × Heap :=
  ((compiledExpression (source.withText text) [.symbol name] globals heap).run arguments).run
    (compiledHeap (source.withText text) [.symbol name] heap)

/-- What comes of a tree of an expression that has been told apart, where no symbol is bound. -/
def endingOf (source : ExpressionSource) (forms : List Value) (heap : Heap) (globals : Nat)
    (arguments : Arguments) (tree : Value) : Except Fault Value × Heap :=
  (compiledHeap source forms heap).aloneEnding
    (parameterVars (compiledExpression source forms globals heap) arguments) heap.scopes.size
    heap.evaluators.size (Eval.frameLimit - 3) 2 tree

/-- A call of an expression with symbols whose trees keep to themselves, for an event that is
data. -/
structure OrderlyCall (source : ExpressionSource) (forms : List Value) (heap : Heap)
    (data : Nat → Prop) (arguments : Arguments) : Prop where
  settled : heap.Settled
  apart : heap.Apart
  deep : 3 ≤ source.config.maxDepth
  keepsToItself : source.KeepsToItself heap data
  holds : heap.HoldsData data arguments.event
  areTrees : Value.AllTrees forms
  noConstants : ∀ each ∈ symbolsOf source forms, each.1 ∉ ["nil", "true", "false"]
  eventLast : source.nullSafe = true →
    eventSymbol ∈ (symbolsOf source forms).map Prod.fst →
      ∀ each ∈ symbolsOf source forms, each.1 ≤ eventSymbol

namespace OrderlyCall

variable {arguments : Arguments}

/-- The tree of a symbol ends among others as a call does whose text is the symbol. -/
theorem endingOf_eq
    (call : OrderlyCall source forms heap data arguments) (globals : Nat) (text : String)
    {each : String × Value} (member : each ∈ (toldSymbols source forms heap).1) :
    ∃ ρ : Renaming, ρ.Keeps heap ∧
      (endingOf source forms heap globals arguments each.2).1 =
        (ranAlone source heap globals arguments text each.1).1.map (Value.rename ρ) ∧
      ((ranAlone source heap globals arguments text each.1).2.losses = heap.losses →
        (endingOf source forms heap globals arguments each.2).2.losses = heap.losses) := by
  have distinct := call.keepsToItself.distinct
  rw [toldSymbols, symbolsOf_eq] at member
  obtain ⟨front, name, tree, back, isSplit, rfl⟩ := exists_of_mem_told member
  have isOne := isOneOf_symbolsOf distinct isSplit text
  have isSymbol : (name, tree) ∈ symbolsOf source.withoutNullSafety forms := by
    rw [isSplit]
    exact List.mem_append_right _ List.mem_cons_self
  have keep := keepToThemselves_symbolsOf call.keepsToItself forms
  have noKeyword := (symbolsOf_single distinct isSymbol text).1
  have noConstant : name ∉ ["nil", "true", "false"] := by
    refine call.noConstants (name, symbolTree source tree) ?_
    rw [symbolsOf_eq]
    exact List.mem_map_of_mem isSymbol
  have keepOne : KeepToThemselves (source.withText text) heap data [(name, tree)] := by
    constructor
    · exact List.pairwise_singleton _ _
    all_goals
      intro each isEach
      rw [List.mem_singleton.mp isEach]
    · exact keep.inTable _ isSymbol
    · exact keep.known _ isSymbol
    · exact keep.areTrees _ isSymbol
  have ran := @run_alone (source.withText text) heap data call.settled call.apart arguments
    call.holds call.deep name tree noKeyword noConstant keepOne isOne.alone globals
  obtain ⟨ρ, keeps, outcome, losses⟩ := isOne.aloneEnding_eq call.settled
    (keep.known _ isSymbol) call.holds.known globals (Eval.frameLimit - 3) 2
  refine ⟨ρ, keeps, ?_, fun unlost => losses (ran.2.symm.trans unlost)⟩
  rw [ranAlone, ran.1]
  exact outcome

/-- Each tree does the same where the symbols before it are bound as where none is. -/
theorem allBeside
    (call : OrderlyCall source forms heap data arguments) (globals : Nat)
    (some : symbolsOf source forms ≠ []) :
    (compiledHeap source forms heap).AllBeside
      (parameterVars (compiledExpression source forms globals heap) arguments) heap.scopes.size
      heap.evaluators.size (Eval.frameLimit - 3) 2 [] (toldSymbols source forms heap).1 := by
  have keep := keepToThemselves_symbolsOf call.keepsToItself forms
  have last : (toldSymbols source forms heap).2 < listBirth source forms heap :=
    Value.tellApart_le (bodyBirth source forms heap) (bodyTree forms)
  have given := @listBirth_lt source forms heap some
  have names : ((symbolsOf source.withoutNullSafety forms).map Prod.fst) =
      (symbolsOf source forms).map Prod.fst := by
    rw [symbolsOf_eq source, withTrees, List.map_map]
    rfl
  have eventLast (isSafe : source.nullSafe = true)
      (isBound : eventSymbol ∈ (symbolsOf source.withoutNullSafety forms).map Prod.fst) :
      ∀ each ∈ symbolsOf source.withoutNullSafety forms, each.1 ≤ eventSymbol := by
    intro each member
    rw [names] at isBound
    refine call.eventLast isSafe isBound (each.1, symbolTree source each.2) ?_
    rw [symbolsOf_eq]
    exact List.mem_map_of_mem member
  have noneEarlier : ∀ name ∈ ([] : List String), name ∈ Entries.keys source.table ∧
      ∀ each ∈ symbolsOf source.withoutNullSafety forms, name < each.1 :=
    fun _ member => absurd member List.not_mem_nil
  rw [toldSymbols, symbolsOf_eq] at last ⊢
  exact allBeside_told call.settled call.apart call.holds call.deep _ (Eval.frameLimit - 5) keep
    noneEarlier eventLast (Nat.lt_succ_self _)
    (Nat.le_of_lt (Nat.lt_trans last given))

/-- The tree of a symbol has the value that a call has whose text is the symbol. -/
theorem exists_succeeds
    (call : OrderlyCall source forms heap data arguments) (globals : Nat) (text : String)
    {each : String × Value} (member : each ∈ (toldSymbols source forms heap).1) {value : Value}
    (isOk : (ranAlone source heap globals arguments text each.1).1 = .ok value)
    (lossless : (ranAlone source heap globals arguments text each.1).2.losses = heap.losses) :
    ∃ ρ : Renaming, ρ.Keeps heap ∧
      (compiledHeap source forms heap).Succeeds
        (parameterVars (compiledExpression source forms globals heap) arguments)
        heap.scopes.size heap.evaluators.size (Eval.frameLimit - 3) 2 each.2
        (value.rename ρ) := by
  obtain ⟨ρ, keeps, outcome, losses⟩ := call.endingOf_eq globals text member
  rw [isOk] at outcome
  exact ⟨ρ, keeps, outcome, (losses lossless).trans (rootedHeap_losses source forms heap).symm⟩

/-- Where all calls have values, the symbols are bound to them and the body is evaluated. -/
theorem run_of_values
    (call : OrderlyCall source forms heap data arguments) (globals : Nat)
    (some : symbolsOf source forms ≠ []) {texts : String → String} {values : String → Value}
    (haveValues : ∀ each ∈ symbolsOf source forms,
      (ranAlone source heap globals arguments (texts each.1) each.1).1 = .ok (values each.1) ∧
        (ranAlone source heap globals arguments (texts each.1) each.1).2.losses = heap.losses) :
    let compiled := compiledHeap source forms heap
    let expression := compiledExpression source forms globals heap
    ∃ (bound : List (String × Value)) (after : Heap),
      bound.map Prod.fst = (symbolsOf source forms).map Prod.fst ∧
      (∀ entry ∈ bound, (∃ ρ : Renaming, ρ.Keeps heap ∧
        entry.2 = (values entry.1).rename ρ) ∧ entry.2.Within .withoutClosures) ∧
      (compiled.bound (parameterVars expression arguments) (Entries.putAll Value.sameKey
        (bound.map fun each => (.str each.1, each.2)) []) heap.scopes.size).Grows after ∧
      after.losses = heap.losses ∧
      (expression.run arguments).run compiled =
        (Eval.solve (Eval.frameLimit - 3) (.evaluate heap.evaluators.size
          (compiled.scopes.size + 1) ((bodyTree forms).tellApart (bodyBirth source forms heap)).1
          2)).perform after := by
  intro compiled expression
  have names := map_fst_tellSymbolsApart (heap.births + 1) (symbolsOf source forms)
  have isValue {each : String × Value} (member : each ∈ (toldSymbols source forms heap).1) :
      ∃ ρ : Renaming, ρ.Keeps heap ∧
        compiled.Succeeds (parameterVars expression arguments) heap.scopes.size
          heap.evaluators.size (Eval.frameLimit - 3) 2 each.2 ((values each.1).rename ρ) := by
    obtain ⟨symbol, isSymbol, sameName⟩ := List.mem_map.mp
      (names ▸ List.mem_map_of_mem member : each.1 ∈ (symbolsOf source forms).map Prod.fst)
    obtain ⟨isOk, lossless⟩ := sameName ▸ haveValues symbol isSymbol
    exact call.exists_succeeds globals (texts each.1) member isOk lossless
  have noneNamed : ValueEntries.NamedIn [] [] := fun _ member => absurd member List.not_mem_nil
  obtain ⟨bound, after, boundNames, areBound, binds, grows, lossless⟩ :=
    Heap.perform_bindAll_ok (toldSymbols source forms heap).1 (fun _ _ => rfl)
      (call.allBeside globals some)
      (fun each member => (isValue member).elim fun _ each => ⟨_, each.2⟩) noneNamed (.refl _) rfl
  have afterLosses : after.losses = heap.losses :=
    lossless.trans (rootedHeap_losses source forms heap)
  refine ⟨bound, after, boundNames.trans names, ?_, grows, afterLosses, ?_⟩
  · intro entry member
    obtain ⟨each, isSymbol, sameName, ⟨value, σ, succeeds, keepsCompiled, isEntry⟩, within⟩ :=
      areBound entry member
    obtain ⟨ρ, keeps, succeedsToo⟩ := isValue isSymbol
    have same : value = (values each.1).rename ρ :=
      Except.ok.inj (succeeds.1.symm.trans succeedsToo.1)
    refine ⟨⟨σ.comp ρ, (keeps_of_compiledHeap keepsCompiled).comp keeps, ?_⟩, within⟩
    rw [isEntry, same, Value.rename_rename, sameName]
  · have keep := keepToThemselves_symbolsOf call.keepsToItself forms
    have someSymbols : symbolsOf source.withoutNullSafety forms ≠ [] := by
      intro none
      rw [symbolsOf_eq, none] at some
      exact some rfl
    have ran := run_bound call.settled call.deep keep (symbolsOf_eq source forms) someSymbols
      call.areTrees globals arguments
    have unlost : after.left? (listBirth source forms heap) = none := by
      have above := lt_listBirth source forms heap
      rw [Heap.left?, afterLosses]
      exact call.settled.unlost (by omega)
    rw [ran, Action.perform_bind_ok binds, Eval.perform_bodyOf _ unlost]
    rfl

/-- Where all calls have values, a call evaluates the body with the symbols bound to them. -/
theorem run_binds
    (call : OrderlyCall source forms heap data arguments) (globals : Nat)
    {texts : String → String} {values : String → Value}
    (haveValues : ∀ each ∈ symbolsOf source forms,
      (ranAlone source heap globals arguments (texts each.1) each.1).1 = .ok (values each.1) ∧
        (ranAlone source heap globals arguments (texts each.1) each.1).2.losses = heap.losses) :
    let compiled := compiledHeap source forms heap
    let expression := compiledExpression source forms globals heap
    ∃ (bound : List (String × Value)) (births next : Nat) (τ : Renaming),
      bound.map Prod.fst = (symbolsOf source forms).map Prod.fst ∧
      (∀ entry ∈ bound, ∃ ρ : Renaming, ρ.Keeps heap ∧ entry.2 = (values entry.1).rename ρ) ∧
      compiled.births ≤ births ∧ τ.Keeps { compiled with births } ∧
      let evaluated := (expression.evaluateBody arguments bound
        ((bodyTree forms).tellApart next).1).perform { compiled with births }
      let ran := (expression.run arguments).run compiled
      ran.1 = evaluated.1.map (Value.rename τ) ∧
        ∀ id, ran.2.entries id = (evaluated.2.entries id).map (Value.renameEntry τ) := by
  intro compiled expression
  by_cases none : symbolsOf source forms = []
  · have ran := run_of_no_symbols globals (fun _ => call.settled.unlost) call.areTrees none
      arguments
    have body : (expression.evaluateBody arguments []
        ((bodyTree forms).tellApart (heap.births + 1)).1).perform compiled = _ :=
      perform_evaluateBody rfl (compiledHeap_scope source forms heap) arguments [] _
    refine ⟨[], compiled.births, heap.births + 1, .identity, none ▸ rfl,
      (fun _ member => absurd member List.not_mem_nil), Nat.le_refl _,
      ⟨fun _ _ => rfl, fun _ _ => rfl, fun _ _ => rfl⟩, ?_⟩
    have same (outcome : Except Fault Value) :
        outcome.map (Value.rename .identity) = outcome := by
      cases outcome <;> simp [Except.map]
    simp only
    rw [ran, body, same]
    exact ⟨rfl, fun id => (Value.map_renameEntry_identity _).symm⟩
  · obtain ⟨bound, after, names, areBound, grows, lossless, ran⟩ :=
      call.run_of_values globals none haveValues
    have kept : after.losses = compiled.losses :=
      lossless.trans (rootedHeap_losses source forms heap).symm
    have inside : heap.scopes.size < compiled.scopes.size := by
      rw [compiledHeap_scopeCount]
      exact Nat.lt_succ_self _
    have paramsKnown : ∀ entry ∈ parameterVars expression arguments,
        compiled.Knows entry.1 ∧ compiled.Knows entry.2 := by
      intro entry member
      simp only [parameterVars, List.mem_cons, List.not_mem_nil, or_false] at member
      rcases member with rfl | rfl | rfl
      · exact ⟨fun _ _ => rfl, knows_compiledHeap call.holds.known⟩
      · exact ⟨fun _ _ => rfl, fun _ _ => rfl⟩
      · exact ⟨fun _ _ => rfl, fun _ _ => rfl⟩
    have plain : Value.EntriesWithin .withoutClosures (Entries.putAll Value.sameKey
        (bound.map fun each => (.str each.1, each.2)) []) := by
      refine Value.entriesWithin_putAll trivial ?_
      rw [Value.entriesWithin_iff]
      intro entry member
      obtain ⟨each, isBound, rfl⟩ := List.mem_map.mp member
      exact ⟨trivial, (areBound each isBound).2⟩
    have known : compiled.Knows
        ((bodyTree forms).tellApart (bodyBirth source forms heap)).1 := by
      refine knows_told (fun ρ _ => Value.rename_of_isTree ρ _ ⟨rfl, trivial, call.areTrees⟩) ?_
      exact Nat.le_of_lt (listBirth_lt none)
    obtain ⟨τ, keeps, outcome, entries⟩ := grows.solve_eq
      (settled_compiledHeap call.settled source forms) kept inside paramsKnown plain known
      (Eval.frameLimit - 3) heap.evaluators.size 2
    refine ⟨bound, after.births, bodyBirth source forms heap, τ, names,
      fun entry member => (areBound entry member).1, grows.births, keeps, ?_⟩
    let start := { compiled with births := after.births }
    let params := parameterVars expression arguments
    let vars := Entries.putAll Value.sameKey (bound.map fun each => (.str each.1, each.2)) []
    have someBound : bound.isEmpty = false := by
      rw [List.isEmpty_eq_false_iff]
      rintro rfl
      exact none (List.map_eq_nil_iff.mp names.symm)
    have body : (expression.evaluateBody arguments bound
        ((bodyTree forms).tellApart (bodyBirth source forms heap)).1).perform start =
          (Eval.solve (Eval.frameLimit - 3) (.evaluate heap.evaluators.size
            (compiled.scopes.size + 1) ((bodyTree forms).tellApart (bodyBirth source forms heap)).1
            2)).perform (start.bound params vars heap.scopes.size) := by
      have isScope : start.scopes[heap.scopes.size]? = some ⟨.table heap.tables.size, []⟩ :=
        compiledHeap_scope source forms heap
      have isFunction : expression.function = functionOf source forms heap := rfl
      rw [perform_evaluateBody isFunction isScope arguments bound, someBound,
        if_neg Bool.false_ne_true]
      exact Action.perform_bind_ok Heap.perform_childScope_bound
    simp only
    rw [ran]
    exact body ▸ ⟨outcome, entries⟩

/-- No tree of a symbol is the same list as the body. -/
theorem sameBirth_told
    (call : OrderlyCall source forms heap data arguments) :
    ∀ each ∈ (toldSymbols source forms heap).1,
      Value.sameBirth each.2 ((bodyTree forms).tellApart (bodyBirth source forms heap)).1 =
        false := by
  have keep := keepToThemselves_symbolsOf call.keepsToItself forms
  have known : ∀ each ∈ symbolsOf source forms, heap.Knows each.2 := by
    rw [symbolsOf_eq]
    intro each member ρ keeps
    obtain ⟨symbol, isSymbol, rfl⟩ := List.mem_map.mp member
    exact rename_symbolTree (keep.known symbol isSymbol ρ keeps)
  rw [← calledSymbols_eq call.settled keep (symbolsOf_eq source forms) 0 arguments]
  exact sameBirth_body call.settled known 0 arguments

/-- The trees of the symbols do not begin with the body. -/
theorem bindingWorker_eq
    (call : OrderlyCall source forms heap data arguments) (globals : Nat) (alarm : Fault)
    (frames inside : Nat) {each : String × Value}
    (member : each ∈ (toldSymbols source forms heap).1) :
    bindingWorker source forms heap globals arguments beginsBody alarm frames
        (.evaluate heap.evaluators.size inside each.2 2) =
      Eval.solve frames (.evaluate heap.evaluators.size inside each.2 2) := by
  refine Eval.watched_of_unmet alarm frames fun inner holder => ?_
  cases inner with
  | nil => exact call.sameBirth_told each member
  | cons sub inner => exact beginsBody_inside sub inner ..

/-- Where the first call that fails is that of a symbol, a call with all symbols fails in the
same way, and it does not begin with its body. -/
theorem run_fails
    (call : OrderlyCall source forms heap data arguments) (globals : Nat)
    {texts : String → String} {name : String} {fault : Fault}
    (isSymbol : name ∈ (symbolsOf source forms).map Prod.fst)
    (fails : (ranAlone source heap globals arguments (texts name) name).1 = .error fault)
    (haveValues : ∀ each ∈ symbolsOf source forms, each.1 < name →
      (∃ value, (ranAlone source heap globals arguments (texts each.1) each.1).1 = .ok value) ∧
        (ranAlone source heap globals arguments (texts each.1) each.1).2.losses =
          heap.losses) :
    let compiled := compiledHeap source forms heap
    let expression := compiledExpression source forms globals heap
    ((expression.run arguments).run compiled).1 = .error fault ∧
      Eval.NeverMeets beginsBody (expression.callTask arguments) compiled := by
  intro compiled expression
  have keep := keepToThemselves_symbolsOf call.keepsToItself forms
  have names : (toldSymbols source forms heap).1.map Prod.fst =
      (symbolsOf source forms).map Prod.fst :=
    map_fst_tellSymbolsApart (heap.births + 1) (symbolsOf source forms)
  have inOrder : ((toldSymbols source forms heap).1.map Prod.fst).Pairwise (· < ·) := by
    rw [names, symbolsOf_eq, withTrees, List.map_map]
    exact List.pairwise_map.mpr keep.inOrder
  rw [← names] at isSymbol
  obtain ⟨⟨name, tree⟩, isTold, rfl⟩ := List.mem_map.mp isSymbol
  obtain ⟨before, rest, isSplit⟩ := List.append_of_mem isTold
  have isOne {each : String × Value} (isBefore : each ∈ before) :
      each ∈ (toldSymbols source forms heap).1 := by
    rw [isSplit]
    exact List.mem_append_left _ isBefore
  have succeed : ∀ each ∈ before, ∃ value,
      compiled.Succeeds (parameterVars expression arguments) heap.scopes.size
        heap.evaluators.size (Eval.frameLimit - 3) 2 each.2 value := by
    intro each isBefore
    rw [isSplit, List.map_append] at inOrder
    have less := (List.pairwise_append.mp inOrder).2.2 each.1 (List.mem_map_of_mem isBefore)
      name List.mem_cons_self
    obtain ⟨symbol, isEach, sameName⟩ :=
      List.mem_map.mp (names ▸ List.mem_map_of_mem (isOne isBefore))
    obtain ⟨⟨value, isOk⟩, lossless⟩ := sameName ▸ haveValues symbol isEach (sameName ▸ less)
    obtain ⟨ρ, -, succeeds⟩ :=
      call.exists_succeeds globals (texts each.1) (isOne isBefore) isOk lossless
    exact ⟨_, succeeds⟩
  have failsToo : (compiled.aloneEnding (parameterVars expression arguments) heap.scopes.size
      heap.evaluators.size (Eval.frameLimit - 3) 2 tree).1 = .error fault := by
    obtain ⟨ρ, -, outcome, -⟩ := call.endingOf_eq globals (texts name) isTold
    rw [fails] at outcome
    exact outcome
  have someTold : symbolsOf source forms ≠ [] := by
    intro none
    rw [names, none] at isSymbol
    cases isSymbol
  have someSymbols : symbolsOf source.withoutNullSafety forms ≠ [] := by
    intro none
    rw [symbolsOf_eq, none] at someTold
    exact someTold rfl
  have beside := call.allBeside globals someTold
  rw [isSplit] at beside
  have noneNamed : ValueEntries.NamedIn [] [] := fun _ member => absurd member List.not_mem_nil
  have ran (alarm : Fault) : ∃ after,
      (Eval.watched beginsBody alarm Eval.frameLimit [] (expression.callTask arguments)).perform
        compiled = (.error fault, after) := by
    have works : ∀ each ∈ before ++ [(name, tree)],
        bindingWorker source forms heap globals arguments beginsBody alarm (Eval.frameLimit - 3)
            (.evaluate heap.evaluators.size (compiled.scopes.size + 1) each.2 2) =
          Eval.solve (Eval.frameLimit - 3)
            (.evaluate heap.evaluators.size (compiled.scopes.size + 1) each.2 2) := by
      intro each member
      refine call.bindingWorker_eq globals alarm _ _ ?_
      rw [isSplit, List.append_cons]
      exact List.mem_append_left _ member
    obtain ⟨after, failed⟩ := Heap.perform_bindAll_error before rest works beside succeed failsToo
      noneNamed (.refl _) rfl
    refine ⟨after, ?_⟩
    have called := perform_call_bound call.settled call.deep keep (symbolsOf_eq source forms)
      someSymbols call.areTrees globals arguments beginsBody alarm (Eval.frameLimit - 3)
      (fun _ => rfl) (fun _ => rfl) fun _ => rfl
    rw [isSplit] at called
    exact called.trans (Action.perform_bind_error failed)
  have unmet : Eval.NeverMeets beginsBody (expression.callTask arguments) compiled := by
    obtain ⟨alarm, unlike⟩ := Regime.exists_alarm (.error fault, compiled)
    obtain ⟨after, failed⟩ := ran alarm
    refine @Eval.NeverMeets.of_quiet _ _ _ alarm fun later stopped => ?_
    rw [failed] at stopped
    cases stopped
    exact unlike compiled rfl
  refine ⟨?_, unmet⟩
  obtain ⟨after, failed⟩ := ran fault
  rw [run_eq, ← unmet fault, failed]

end OrderlyCall

end Expression

end CueScript
