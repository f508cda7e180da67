import CueScript.Proofs.Extract.Alone

/-!
# The same tree further on

Texts that are compiled with one table have the trees of their symbols told apart at other
numbers.  Where no symbol is bound yet, the tree of a symbol does the same in both.
-/

namespace CueScript

/-- The same request, but for another text. -/
def ExpressionSource.withText (source : ExpressionSource) (text : String) : ExpressionSource :=
  { source with text }

theorem shifted_two (ahead first beyond last number : Nat) :
    shifted (List.replicate ahead first ++ List.replicate beyond last) number =
      number + (if first ≤ number then ahead else 0) + if last ≤ number then beyond else 0 := by
  simp [shifted, List.countP_append, List.countP_replicate, Nat.add_assoc]

/-- Runs whose numbers differ only are not told apart. -/
theorem Pairing.coveredBy_never
    {pairing : Pairing} (isOpen : pairing.Open) (level : ¬ pairing.slack) :
    pairing.CoveredBy .never := by
  intro task around heap _
  have equal : ¬ pairing.lowered := fun lowered => level (pairing.lowers lowered)
  cases task with
  | evaluate owner inside form depth =>
      exact ⟨isOpen.1.unbacked.meets inside, fun _ _ => .inl isOpen.1⟩
  | read value name =>
      cases value with
      | store id => exact fun isApart => absurd isApart isOpen.2
      | scope id => exact ⟨.inl isOpen, .inl isOpen.1.unbacked⟩
      | evaluator id => exact fun lowered => absurd lowered equal
      | closure id shown params rest body inside owner =>
          exact .inl (isOpen.1.unbacked.meets inside)
      | _ => exact trivial
  | enter closure args depth => exact isOpen.1.unbacked.permits_enter closure args depth
  | call function args =>
      cases function with
      | member receiver operation =>
          cases receiver with
          | scope id => exact isOpen
          | evaluator id => exact ⟨isOpen, fun slack => absurd slack level⟩
          | _ => exact trivial
      | _ => exact trivial

namespace Expression

theorem tellSymbolsApart_append (next : Nat) (front back : List (String × Value)) :
    tellSymbolsApart next (front ++ back) =
      ((tellSymbolsApart next front).1 ++
        (tellSymbolsApart (tellSymbolsApart next front).2 back).1,
        (tellSymbolsApart (tellSymbolsApart next front).2 back).2) := by
  induction front generalizing next with
  | nil => rfl
  | cons each rest inductionHypothesis =>
      simp only [List.cons_append, tellSymbolsApart, inductionHypothesis]

section Compiled

variable {source : ExpressionSource} {heap : Heap}

/-- The number from which the tree of a symbol is told apart that comes after others. -/
def startBirth (source : ExpressionSource) (heap : Heap) (front : List (String × Value)) : Nat :=
  (tellSymbolsApart (heap.births + 1) (withTrees source front)).2

theorem lt_startBirth (front : List (String × Value)) :
    heap.births < startBirth source heap front :=
  tellSymbolsApart_le (heap.births + 1) (withTrees source front)

/-- The numbers of an expression with several symbols for those of one whose text is one of
them: its tree is told apart further on, and so is what comes after. -/
def furtherNumbers (source : ExpressionSource) (heap : Heap) (front : List (String × Value))
    (tree : Value) (beyond : Nat) : Renaming :=
  let last := ((symbolTree source tree).tellApart (heap.births + 1)).2
  .shifting
    (List.replicate (startBirth source heap front - (heap.births + 1)) (heap.births + 1) ++
      List.replicate beyond last) [] [] fun mark member => by
        have above : heap.births + 1 ≤ last := Value.tellApart_le _ _
        rcases List.mem_append.mp member with member | member
        · rw [List.eq_of_mem_replicate member]
          omega
        · rw [List.eq_of_mem_replicate member]
          omega

theorem furtherNumbers_births
    (front : List (String × Value)) (tree : Value) (beyond number : Nat) :
    (furtherNumbers source heap front tree beyond).births number =
      number +
        (if heap.births + 1 ≤ number then startBirth source heap front - (heap.births + 1)
          else 0) +
        if ((symbolTree source tree).tellApart (heap.births + 1)).2 ≤ number then beyond
        else 0 :=
  shifted_two ..

theorem furtherNumbers_keeps
    (front : List (String × Value)) (tree : Value) (beyond : Nat) :
    (furtherNumbers source heap front tree beyond).Keeps heap where
  births number below := by
    have above := Value.tellApart_le (heap.births + 1) (symbolTree source tree)
    rw [furtherNumbers_births, if_neg (by omega), if_neg (by omega)]
    rfl
  scopes _ _ := rfl
  tables _ _ := rfl

theorem rename_symbolTree
    {ρ : Renaming} {tree : Value} (same : tree.rename ρ = tree) :
    (symbolTree source tree).rename ρ = symbolTree source tree := by
  unfold symbolTree
  split
  · simp [Reference.nullSafe, same, ρ.births_zero]
  · exact same

/-- The tree of a symbol is told apart further on. -/
theorem tellApart_further
    {tree : Value} (known : heap.Knows tree) (front : List (String × Value)) (beyond : Nat) :
    (symbolTree source tree).tellApart (startBirth source heap front) =
      (((symbolTree source tree).tellApart (heap.births + 1)).1.rename
          (furtherNumbers source heap front tree beyond),
        ((symbolTree source tree).tellApart (heap.births + 1)).2 +
          (startBirth source heap front - (heap.births + 1))) := by
  have after := @lt_startBirth source heap front
  have same : (symbolTree source tree).rename (furtherNumbers source heap front tree beyond) =
      symbolTree source tree :=
    rename_symbolTree (known _ (furtherNumbers_keeps front tree beyond))
  have moved : Value.Moved (furtherNumbers source heap front tree beyond)
      (startBirth source heap front - (heap.births + 1)) (heap.births + 1)
      ((symbolTree source tree).tellApart (heap.births + 1)).2 := by
    intro number above below
    rw [furtherNumbers_births, if_pos above, if_neg (by omega)]
    rfl
  have told := Value.tellApart_rename (heap.births + 1) _ (symbolTree source tree) moved
  rw [same, show heap.births + 1 + (startBirth source heap front - (heap.births + 1)) =
    startBirth source heap front by omega] at told
  exact told

/-- Whether a symbol with its tree is one of those of an expression and the only one of
another, which has one symbol as its text. -/
structure IsOneOf (source : ExpressionSource) (forms : List Value) (text name : String)
    (tree : Value) (front back : List (String × Value)) : Prop where
  together : symbolsOf source forms = withTrees source (front ++ (name, tree) :: back)
  alone : symbolsOf (source.withText text) [.symbol name] = withTrees source [(name, tree)]

/-- By how much the heap of an expression is further on than that of one with one symbol, once
the tree of the symbol has been told apart. -/
def beyond (source : ExpressionSource) (forms : List Value) (heap : Heap) (text name : String)
    (front : List (String × Value)) : Nat :=
  (toldHeap source forms heap).births -
    ((toldHeap (source.withText text) [.symbol name] heap).births +
      (startBirth source heap front - (heap.births + 1)))

variable {forms : List Value} {text name : String} {tree : Value}
  {front back : List (String × Value)}

theorem IsOneOf.toldHeap_births
    (isOne : IsOneOf source forms text name tree front back) :
    (toldHeap (source.withText text) [.symbol name] heap).births =
      ((symbolTree source tree).tellApart (heap.births + 1)).2 + 4 := by
  have some : symbolsOf (source.withText text) [.symbol name] ≠ [] := by
    rw [isOne.alone]
    exact List.cons_ne_nil _ _
  have toldIs : toldSymbols (source.withText text) [.symbol name] heap =
      ([(name, ((symbolTree source tree).tellApart (heap.births + 1)).1)],
        ((symbolTree source tree).tellApart (heap.births + 1)).2) := by
    rw [toldSymbols, isOne.alone]
    rfl
  have bodyIs (next : Nat) : (bodyTree [.symbol name]).tellApart next =
      (.list [.symbol "do", .symbol name] next, next + 1) := rfl
  rw [Expression.toldHeap_births, tellApart_treeOf some]
  simp only [listBirth, bodyBirth, bodyIs, toldIs]

theorem IsOneOf.toldSymbols_eq
    (isOne : IsOneOf source forms text name tree front back) :
    ∃ before after last,
      toldSymbols source forms heap =
        (before ++ (name, ((symbolTree source tree).tellApart
          (startBirth source heap front)).1) :: after, last) ∧
      ((symbolTree source tree).tellApart (startBirth source heap front)).2 ≤ last := by
  let tellLater := tellSymbolsApart
    ((symbolTree source tree).tellApart (startBirth source heap front)).2 (withTrees source back)
  refine ⟨(tellSymbolsApart (heap.births + 1) (withTrees source front)).1, tellLater.1,
    tellLater.2, ?_, tellSymbolsApart_le _ _⟩
  rw [toldSymbols, isOne.together, withTrees, List.map_append]
  exact tellSymbolsApart_append _ _ _

theorem IsOneOf.toldHeap_le
    (isOne : IsOneOf source forms text name tree front back) (known : heap.Knows tree) :
    (toldHeap (source.withText text) [.symbol name] heap).births +
        (startBirth source heap front - (heap.births + 1)) ≤
      (toldHeap source forms heap).births := by
  have some : symbolsOf source forms ≠ [] := by
    rw [isOne.together, withTrees]
    simp
  obtain ⟨_, _, last, toldIs, le⟩ := @IsOneOf.toldSymbols_eq _ heap _ _ _ _ _ _ isOne
  have treeLe : ((symbolTree source tree).tellApart (startBirth source heap front)).2 =
      ((symbolTree source tree).tellApart (heap.births + 1)).2 +
        (startBirth source heap front - (heap.births + 1)) := by
    rw [tellApart_further known front 0]
  have bodyLe := Value.tellItemsApart_le (bodyBirth source forms heap) (.symbol "do" :: forms)
  have listIs : listBirth source forms heap =
      (Value.tellItemsApart (bodyBirth source forms heap) (.symbol "do" :: forms)).2 + 1 := rfl
  have bodyIs : bodyBirth source forms heap = last + 1 := by
    rw [bodyBirth, toldIs]
  rw [isOne.toldHeap_births, Expression.toldHeap_births, tellApart_treeOf some]
  simp only
  omega

/-- Both go on with numbers that stand for each other. -/
theorem IsOneOf.nextBirth
    (isOne : IsOneOf source forms text name tree front back) (known : heap.Knows tree)
    (further : Nat) :
    (furtherNumbers source heap front tree (beyond source forms heap text name front)).births
        ((toldHeap (source.withText text) [.symbol name] heap).births + further) =
      (toldHeap source forms heap).births + further := by
  have le := isOne.toldHeap_le known
  have isLast := @IsOneOf.toldHeap_births _ heap _ _ _ _ _ _ isOne
  have above := Value.tellApart_le (heap.births + 1) (symbolTree source tree)
  rw [furtherNumbers_births, if_pos (by omega), if_pos (by omega), beyond]
  omega

/-- Nothing but numbers differs where a tree is told apart further on. -/
def furtherPairing (source : ExpressionSource) (forms : List Value) (heap : Heap)
    (text name : String) (front : List (String × Value)) (tree : Value) (alarm : Fault) :
    Pairing where
  numbers :=
    furtherNumbers source heap front tree (beyond source forms heap text name front)
  slack := False
  aside _ := none
  spoken _ := True
  alike _ _ _ isAside := nomatch isAside
  ownScopes := 0
  alarm := alarm

/-- With one symbol and with several, expressions are compiled in heaps that are alike. -/
theorem IsOneOf.like_compiledHeap
    (isOne : IsOneOf source forms text name tree front back) (settled : heap.Settled)
    (known : heap.Knows tree) (alarm : Fault) :
    (compiledHeap (source.withText text) [.symbol name] heap).Like
      (furtherPairing source forms heap text name front tree alarm)
      (compiledHeap source forms heap) := by
  have told : (toldHeap (source.withText text) [.symbol name] heap).Like
      (furtherPairing source forms heap text name front tree alarm)
      (toldHeap source forms heap) :=
    settled.like (furtherNumbers_keeps front tree _) (fun _ => rfl) id rfl _
      (isOne.nextBirth known) (fun _ => rfl) fun _ => rfl
  have isOpen : (furtherPairing source forms heap text name front tree alarm).Open :=
    ⟨fun _ => rfl, id⟩
  have ends := twin_openRoot isOpen heap.evaluators.size source.lineage _ _ told
  have rooted := ((perform_openRoot (source.withText text) [.symbol name] heap) ▸
    (perform_openRoot source forms heap) ▸ ends : TwinEnds _ _ _ _).of_ok.2
  exact (rooted.skip 1).openStore (source.label ++ " locals") []

/-- Where no symbol is bound yet, the tree of a symbol does the same whether the expression
has other symbols or not. -/
theorem IsOneOf.aloneEnding_eq
    (isOne : IsOneOf source forms text name tree front back) (settled : heap.Settled)
    (known : heap.Knows tree) {arguments : Arguments} (eventKnown : heap.Knows arguments.event)
    (globals frames : Nat) (depth : Int) :
    ∃ ρ : Renaming, ρ.Keeps heap ∧
      let alone := (compiledHeap (source.withText text) [.symbol name] heap).aloneEnding
        (parameterVars (compiledExpression (source.withText text) [.symbol name] globals heap)
          arguments) heap.scopes.size heap.evaluators.size frames depth
        ((symbolTree source tree).tellApart (heap.births + 1)).1
      let together := (compiledHeap source forms heap).aloneEnding
        (parameterVars (compiledExpression source forms globals heap) arguments)
        heap.scopes.size heap.evaluators.size frames depth
        ((symbolTree source tree).tellApart (startBirth source heap front)).1
      together.1 = alone.1.map (Value.rename ρ) ∧
        (alone.2.losses = heap.losses → together.2.losses = heap.losses) := by
  let ρ := furtherNumbers source heap front tree (beyond source forms heap text name front)
  have keeps : ρ.Keeps heap := furtherNumbers_keeps front tree _
  refine ⟨ρ, keeps, ?_⟩
  let params := parameterVars (compiledExpression source forms globals heap) arguments
  let first := compiledHeap (source.withText text) [.symbol name] heap
  let second := compiledHeap source forms heap
  have sameScopes : second.scopes.size = first.scopes.size := by
    rw [compiledHeap_scopeCount, compiledHeap_scopeCount]
  have further := @tellApart_further source heap tree known front
    (beyond source forms heap text name front)
  obtain ⟨alarm, quiet⟩ := Regime.exists_alarm
    (first.aloneEnding params heap.scopes.size heap.evaluators.size frames depth
      ((symbolTree source tree).tellApart (heap.births + 1)).1)
  let pairing := furtherPairing source forms heap text name front tree alarm
  have isOpen : pairing.Open := ⟨fun _ => rfl, id⟩
  have sameParams : params.map (Value.renameEntry ρ) = params := by
    simp only [params, parameterVars, List.map_cons, List.map_nil, Value.renameEntry_mk,
      Value.rename_str, Value.rename_store, eventKnown ρ keeps]
  have like : (first.bound params [] heap.scopes.size).Like pairing
      (second.bound params [] heap.scopes.size) := by
    have outer := like_opened (fun _ => rfl) (isOne.like_compiledHeap settled known alarm)
      (compiledHeap_scope _ _ heap) params
    rw [show params.map (Value.renameEntry pairing.numbers) = params from sameParams] at outer
    unfold Heap.bound
    rw [sameScopes]
    exact like_opened (fun _ => rfl) outer (Heap.opened_scope first params [heap.scopes.size]) []
  have tasks : Task.Twin pairing
      (.evaluate heap.evaluators.size (first.scopes.size + 1)
        ((symbolTree source tree).tellApart (heap.births + 1)).1 depth)
      (.evaluate heap.evaluators.size (second.scopes.size + 1)
        ((symbolTree source tree).tellApart (startBirth source heap front)).1 depth) := by
    rw [sameScopes, further]
    exact .evaluate _ _ _ (pairing.levels_refl depth)
  have ends := Eval.workers_twin (Pairing.coveredBy_never isOpen id) (.inl (Eq.refl frames)) []
    _ _ tasks _ _ like
  rw [Eval.watched_never] at ends
  obtain ⟨alike, outcome⟩ := ends.of_quiet id quiet
  refine ⟨outcome, fun unlost => alike.losses.trans ?_⟩
  have fixed := settled.fixed keeps
  change List.map _ (first.aloneEnding params _ _ frames depth _).2.losses = _
  rw [show (first.aloneEnding params _ _ frames depth _).2.losses = _ from unlost]
  exact Heap.Settled.map_eq_of_forall fun entry member =>
    Prod.ext (fixed.losses entry member).1 (fixed.losses entry member).2

end Compiled

end Expression

end CueScript
