import CueScript.Proofs.Extract.Bindings
import CueScript.Proofs.Symbols.NullSafe

/-!
# One symbol alone

An expression whose text is one symbol of its table evaluates the tree of the symbol and
nothing else.  Where other texts are compiled with the same table, the same tree is told
apart further on, and does the same.
-/

namespace CueScript

/-! ## One renaming after another -/

/-- The numbers that a renaming gives to those that another one gives. -/
def Renaming.comp (later ρ : Renaming) : Renaming where
  births number := later.births (ρ.births number)
  scopes number := later.scopes (ρ.scopes number)
  tables number := later.tables (ρ.tables number)
  births_injective := later.births_injective.comp ρ.births_injective
  births_zero := by rw [ρ.births_zero, later.births_zero]
  scopes_injective := later.scopes_injective.comp ρ.scopes_injective
  tables_injective := later.tables_injective.comp ρ.tables_injective

theorem Renaming.Keeps.comp
    {later ρ : Renaming} {heap : Heap} (laterKeeps : later.Keeps heap) (keeps : ρ.Keeps heap) :
    (later.comp ρ).Keeps heap where
  births number below :=
    (congrArg later.births (keeps.births number below)).trans (laterKeeps.births number below)
  scopes number below :=
    (congrArg later.scopes (keeps.scopes number below)).trans (laterKeeps.scopes number below)
  tables number below :=
    (congrArg later.tables (keeps.tables number below)).trans (laterKeeps.tables number below)

namespace Value

variable (later ρ : Renaming)

mutual

theorem rename_rename (value : Value) :
    (value.rename ρ).rename later = value.rename (later.comp ρ) := by
  cases value with
  | list items birth => simp only [rename_list, map_rename_rename items, Renaming.comp]
  | vector items birth => simp only [rename_vector, map_rename_rename items, Renaming.comp]
  | quoted form => simp only [rename_quoted, rename_rename form]
  | tuple items => simp only [rename_tuple, map_rename_rename items]
  | map entries birth =>
      simp only [rename_map, map_renameEntry_rename entries, Renaming.comp]
  | closure id name params rest body inside owner =>
      simp only [rename_closure, map_rename_rename body, Renaming.comp]
  | event id origin members =>
      simp only [rename_event, map_renameMember_rename members, Renaming.comp]
  | method id result => simp only [rename_method, rename_rename result, Renaming.comp]
  | member receiver name => simp only [rename_member, rename_rename receiver]
  | _ => rfl

theorem map_rename_rename (items : List Value) :
    (items.map (rename ρ)).map (rename later) = items.map (rename (later.comp ρ)) := by
  cases items with
  | nil => rfl
  | cons item rest =>
      simp only [List.map_cons, rename_rename item, map_rename_rename rest]

theorem map_renameEntry_rename (entries : List (Value × Value)) :
    (entries.map (renameEntry ρ)).map (renameEntry later) =
      entries.map (renameEntry (later.comp ρ)) := by
  cases entries with
  | nil => rfl
  | cons entry rest =>
      simp only [List.map_cons, renameEntry_rename entry, map_renameEntry_rename rest]

theorem renameEntry_rename (entry : Value × Value) :
    renameEntry later (renameEntry ρ entry) = renameEntry (later.comp ρ) entry := by
  cases entry with
  | mk key value => simp only [renameEntry_mk, rename_rename key, rename_rename value]

theorem map_renameMember_rename (members : List (String × Value)) :
    (members.map (renameMember ρ)).map (renameMember later) =
      members.map (renameMember (later.comp ρ)) := by
  cases members with
  | nil => rfl
  | cons first rest =>
      simp only [List.map_cons, renameMember_rename first, map_renameMember_rename rest]

theorem renameMember_rename (first : String × Value) :
    renameMember later (renameMember ρ first) = renameMember (later.comp ρ) first := by
  cases first with
  | mk name value => simp only [renameMember_mk, rename_rename value]

end

end Value

namespace Eval

/-! ## Symbols around a body -/

theorem perform_symbol
    {frames owner scope : Nat} {name : String} {depth : Int} {heap : Heap} {value : Value}
    (noKeyword : name.toList.head? ≠ some ':') (noConstant : name ∉ ["nil", "true", "false"])
    (shallow : ¬ heap.maxDepth owner < depth)
    (isValue : heap.lookup? scope (.str name) = .ok (some value)) :
    (solve (frames + 1) (.evaluate owner scope (.symbol name) depth)).perform heap =
      (.ok value, heap) := by
  have lookedUp : standsForItself name = false := by
    unfold standsForItself
    split
    · rename_i spelled
      rw [spelled] at noKeyword
      exact absurd rfl noKeyword
    · exact decide_eq_false noConstant
  rw [solve, perform_evaluate_shallow _ shallow, Heap.current_symbol]
  change (symbol scope name).perform heap = _
  rw [symbol_eq_lookup lookedUp, perform_lookup isValue]

/-- Symbols are bound in a scope of their own, and then the body is evaluated there. -/
theorem perform_letIn
    (worker : Worker) (heap : Heap) (params : ValueEntries) (root owner : Nat) (depth : Int)
    (birth : Nat) (symbols : List (String × Value)) (body : Value) :
    (special worker ⟨owner, heap.scopes.size, depth⟩ birth (.letIn symbols [body])).perform
        (heap.opened params [root]) =
      (bindAll worker ⟨owner, heap.scopes.size + 1, depth⟩ symbols >>= fun _ =>
        bodyOf worker ⟨owner, heap.scopes.size + 1, depth⟩ birth [body]).perform
          (heap.bound params [] root) :=
  Action.perform_bind_ok Heap.perform_childScope_bound

/-- A symbol is all of a body. -/
theorem perform_doSymbol
    {frames owner scope birth : Nat} {name : String} {depth : Int} {heap : Heap} {value : Value}
    (noKeyword : name.toList.head? ≠ some ':') (noConstant : name ∉ ["nil", "true", "false"])
    (shallow : ¬ heap.maxDepth owner < depth + 1) (unlost : heap.left? birth = none)
    (isValue : heap.lookup? scope (.str name) = .ok (some value)) :
    (solve (frames + 2) (.evaluate owner scope
      (.list [.symbol "do", .symbol name] birth) depth)).perform heap = (.ok value, heap) := by
  have lessShallow : ¬ heap.maxDepth owner < depth := by omega
  rw [solve, perform_evaluate_shallow _ lessShallow, Heap.current_list unlost, List.map_cons,
    List.map_cons, List.map_nil, Heap.current_symbol, Heap.current_symbol]
  change (body (solve (frames + 1)) ⟨owner, scope, depth + 1⟩ [.symbol name]).perform heap = _
  simp only [body, bodyFrom, bind_pure]
  exact perform_symbol noKeyword noConstant shallow isValue

end Eval

namespace Heap

/-- A body that is the only symbol bound around it gives what the tree of the symbol does. -/
theorem EndsBeside.perform_single
    {heap : Heap} {known : Nat → Prop} {params : ValueEntries} {root owner frames : Nat}
    {depth : Int} {tree : Value} {name : String} {bodyBirth listBirth : Nat}
    (ends : heap.EndsBeside known params [] root
      (heap.aloneEnding params root owner (frames + 2) depth tree)
      (heap.aloneEnding params root owner (frames + 2) depth tree))
    (noKeyword : name.toList.head? ≠ some ':') (noConstant : name ∉ ["nil", "true", "false"])
    (shallow : ¬ heap.maxDepth owner < depth + 1)
    (bodyNew : bodyBirth < heap.births ∧ ¬ known bodyBirth ∧ heap.left? bodyBirth = none)
    (listNew : listBirth < heap.births ∧ ¬ known listBirth ∧ heap.left? listBirth = none) :
    let run := (Eval.bindAll (Eval.solve (frames + 2)) ⟨owner, heap.scopes.size + 1, depth⟩
      [(name, tree)] >>= fun _ =>
        Eval.bodyOf (Eval.solve (frames + 2)) ⟨owner, heap.scopes.size + 1, depth⟩ listBirth
          [.list [.symbol "do", .symbol name] bodyBirth]).perform (heap.bound params [] root)
    run.1 = (heap.aloneEnding params root owner (frames + 2) depth tree).1 ∧
      run.2.losses = (heap.aloneEnding params root owner (frames + 2) depth tree).2.losses := by
  generalize isEnding : heap.aloneEnding params root owner (frames + 2) depth tree = ending
    at ends
  obtain ⟨outcome, after⟩ := ending
  have unlost {birth : Nat}
      (new : birth < heap.births ∧ ¬ known birth ∧ heap.left? birth = none) :
      after.left? birth = none :=
    (ends.unlost birth new.1 new.2.1).trans new.2.2
  change (Eval.form (Eval.solve (frames + 2)) ⟨owner, heap.scopes.size + 1, depth⟩ tree).perform
    (heap.bound params [] root) = _ at isEnding
  cases outcome with
  | error fault =>
      have stopped : (Eval.bindAll (Eval.solve (frames + 2))
          ⟨owner, heap.scopes.size + 1, depth⟩ [(name, tree)]).perform
            (heap.bound params [] root) = (.error fault, after) :=
        Action.perform_bind_error isEnding
      simp only [Action.perform_bind_error stopped, and_self]
  | ok value =>
      obtain ⟨later, defined, grown, losses⟩ := ends.grows.perform_define name value
      have single : (Eval.bindAll (Eval.solve (frames + 2))
          ⟨owner, heap.scopes.size + 1, depth⟩ [(name, tree)]).perform
            (heap.bound params [] root) = (.ok ⟨⟩, later) := by
        rw [Eval.bindAll, Action.perform_bind_ok isEnding, Action.perform_bind_ok defined]
        rfl
      have laterUnlost {birth : Nat}
          (new : birth < heap.births ∧ ¬ known birth ∧ heap.left? birth = none) :
          later.left? birth = none := by
        rw [Heap.left?, losses]
        exact unlost new
      have laterShallow : ¬ later.maxDepth owner < depth + 1 := by
        rw [grown.maxDepth]
        exact shallow
      have isBound : Entries.find? Value.sameKey (.str name)
          (Entries.put Value.sameKey (.str name) value []) = some value :=
        if_pos (beq_self_eq_true name)
      simp only [Action.perform_bind_ok single]
      rw [Eval.perform_bodyOf _ (laterUnlost listNew), Eval.form,
        Eval.perform_doSymbol noKeyword noConstant laterShallow (laterUnlost bodyNew)
          (grown.lookup_inner isBound)]
      exact ⟨rfl, losses⟩

end Heap

/-! ## Trees that keep to themselves -/

/-- The symbols that a tree for a name of a table is kept from: those that make closures, those
under which stores are found and the other names of the table. -/
def ExpressionSource.barred (source : ExpressionSource) (own : String) : List String :=
  "fn" :: "locals" :: "globals" :: (abbreviations.map Prod.fst ++
    (Entries.keys source.table).filter (· ≠ own))

theorem ExpressionSource.mem_barred
    {source : ExpressionSource} {own other : String} (isName : other ∈ Entries.keys source.table)
    (different : other ≠ own) :
    other ∈ source.barred own := by
  have kept : other ∈ (Entries.keys source.table).filter (· ≠ own) :=
    List.mem_filter.mpr ⟨isName, by simpa using different⟩
  exact List.mem_cons_of_mem _ (List.mem_cons_of_mem _ (List.mem_cons_of_mem _
    (List.mem_append_right _ kept)))

namespace Expression

section Compiled

variable {source : ExpressionSource} {forms : List Value} {heap : Heap} {data : Nat → Prop}

theorem compiledHeap_scopeCount :
    (compiledHeap source forms heap).scopes.size = heap.scopes.size + 1 := by
  change (rootedHeap source forms heap).scopes.size = _
  rw [rootedHeap_scopes, Array.size_push]

theorem compiledHeap_tableCount :
    (compiledHeap source forms heap).tables.size = heap.tables.size + 2 := by
  obtain ⟨vars, isTables, -⟩ := rootedHeap_tables source forms heap
  change ((rootedHeap source forms heap).tables.push []).size = _
  rw [isTables, Array.size_push, Array.size_push]

theorem le_compiledHeap : heap.births ≤ (compiledHeap source forms heap).births :=
  Nat.le_succ_of_le (le_rootedHeap source forms heap)

theorem keeps_of_compiledHeap {ρ : Renaming} (keeps : ρ.Keeps (compiledHeap source forms heap)) :
    ρ.Keeps heap := by
  have births := @le_compiledHeap source forms heap
  have scopeCount := @compiledHeap_scopeCount source forms heap
  have tableCount := @compiledHeap_tableCount source forms heap
  exact ⟨fun number below => keeps.births number (by omega),
    fun number below => keeps.scopes number (by omega),
    fun number below => keeps.tables number (by omega)⟩

theorem knows_compiledHeap {value : Value} (known : heap.Knows value) :
    (compiledHeap source forms heap).Knows value :=
  fun ρ keeps => known ρ (keeps_of_compiledHeap keeps)

/-- The numbers of the lists of a tree that is told apart: those that were given out before and
new ones. -/
def ownCode (heap : Heap) (data : Nat → Prop) (first last birth : Nat) : Prop :=
  heap.IsUntouched data birth ∨ first ≤ birth ∧ birth < last

theorem ownsCode_compiledHeap
    (settled : heap.Settled) (given : ∀ birth, data birth → birth < heap.births)
    {first last : Nat} (after : heap.births < first)
    (before : last ≤ (compiledHeap source forms heap).births) :
    (compiledHeap source forms heap).OwnsCode data (ownCode heap data first last) := by
  have births := @le_compiledHeap source forms heap
  constructor
  · rintro (untouched | fresh)
    · exact absurd untouched.positive (Nat.lt_irrefl 0)
    · omega
  · rintro birth (untouched | fresh)
    · exact Nat.lt_of_lt_of_le untouched.given births
    · omega
  · rintro birth (untouched | fresh)
    · exact (compiledHeap_left source forms heap birth).trans untouched.unlost
    · exact (compiledHeap_left source forms heap birth).trans (settled.unlost (by omega))
  · rintro birth (untouched | fresh) isData
    · exact untouched.noData isData
    · have old := given birth isData
      omega

theorem keepsApart_compiledHeap
    (settled : heap.Settled) (apart : heap.Apart) {event : Value}
    (holds : heap.HoldsData data event) {first last : Nat} (after : heap.births < first)
    (before : last ≤ (compiledHeap source forms heap).births) (own : String)
    (locals globals : Nat) :
    (compiledHeap source forms heap).KeepsApart (source.barred own) data
      (ownCode heap data first last) heap.scopes.size heap.tables.size event
      [(.str "locals", .store locals), (.str "globals", .store globals)] := by
  have births := @le_compiledHeap source forms heap
  obtain ⟨vars, isTables, plain⟩ := rootedHeap_tables source forms heap
  have retains := retains_compiledHeap apart source forms
  have isTable : (compiledHeap source forms heap).tables[heap.tables.size]? = some vars := by
    change ((rootedHeap source forms heap).tables.push [])[heap.tables.size]? = some vars
    rw [isTables, Heap.getElem?_push_of_lt (by simp), Array.getElem?_push_size]
  constructor
  · exact settled_compiledHeap settled source forms
  · exact retains.apart
  · refine ⟨compiledHeap_scope source forms heap, fun entries isEntries => ?_⟩
    rw [isTable] at isEntries
    cases isEntries
    exact fun value member => (plain value member).1
  · exact ownsCode_compiledHeap settled holds.given after before
  · constructor
    · exact knows_compiledHeap holds.known
    · exact holds.within
    · exact fun birth isData => Nat.lt_of_lt_of_le (holds.given birth isData) births
    · intro birth left isData isLeft
      rw [compiledHeap_left] at isLeft
      exact holds.losses birth left isData isLeft
  · intro entry member
    simp only [List.mem_cons, List.not_mem_nil, or_false] at member
    rcases member with rfl | rfl
    · exact ⟨"locals", by simp [ExpressionSource.barred], rfl⟩
    · exact ⟨"globals", by simp [ExpressionSource.barred], rfl⟩
  · exact List.mem_cons_self
  · intro name member
    exact List.mem_cons_of_mem _ (List.mem_cons_of_mem _ (List.mem_cons_of_mem _
      (List.mem_append_left _ member)))

/-- The tree that is evaluated for a symbol. -/
def symbolTree (source : ExpressionSource) (tree : Value) : Value :=
  if source.nullSafe then Reference.nullSafe tree else tree

theorem knows_told
    {tree : Value} {first : Nat} (known : heap.Knows tree)
    (before : (tree.tellApart first).2 ≤ (compiledHeap source forms heap).births) :
    (compiledHeap source forms heap).Knows (tree.tellApart first).1 := by
  intro ρ keeps
  have same := known ρ (keeps_of_compiledHeap keeps)
  have told := @Value.tellApart_rename ρ first 0 tree
    fun number _ below => keeps.births number (by omega)
  rw [same] at told
  exact (congrArg Prod.fst told).symm

/-- The tree of a symbol does the same wherever other symbols are bound as where none is. -/
theorem endsBeside_told
    (settled : heap.Settled) (apart : heap.Apart) {arguments : Arguments}
    (holds : heap.HoldsData data arguments.event) (deep : 3 ≤ source.config.maxDepth)
    {name : String} {tree : Value} (known : heap.Knows tree)
    (isTree : tree.IsTreeWithout (source.barred name)
      fun birth => birth = 0 ∨ heap.IsUntouched data birth)
    {first : Nat} (after : heap.births < first)
    (before : ((symbolTree source tree).tellApart first).2 ≤
      (compiledHeap source forms heap).births)
    (expression : Expression) (frames : Nat) {vars : ValueEntries} {later : Heap}
    (varsNamed : vars.NamedIn (source.barred name))
    (unbound : source.nullSafe = true →
      Entries.find? Value.sameKey (.str Reference.eventSymbol) vars = none)
    (grows : ((compiledHeap source forms heap).bound (parameterVars expression arguments) vars
      heap.scopes.size).Grows later)
    (lossless : later.losses = heap.losses) :
    (compiledHeap source forms heap).EndsBeside
      (fun birth => birth = 0 ∨ data birth ∨
        ownCode heap data first (tree.tellApart first).2 birth)
      (parameterVars expression arguments) vars heap.scopes.size
      ((compiledHeap source forms heap).aloneEnding (parameterVars expression arguments)
        heap.scopes.size heap.evaluators.size (frames + 2) 2
        ((symbolTree source tree).tellApart first).1)
      ((Eval.solve (frames + 2) (.evaluate heap.evaluators.size
        ((compiledHeap source forms heap).scopes.size + 1)
        ((symbolTree source tree).tellApart first).1 2)).perform later) := by
  have compiledLosses : later.losses = (compiledHeap source forms heap).losses :=
    lossless.trans (rootedHeap_losses source forms heap).symm
  have shallow : ¬ (compiledHeap source forms heap).maxDepth heap.evaluators.size < 2 + 1 := by
    rw [compiledHeap_maxDepth]
    omega
  have told {last : Nat} (isLast : (tree.tellApart first).2 ≤ last) :
      (tree.tellApart first).1.IsTreeWithout (source.barred name)
        (ownCode heap data first last) :=
    Value.tellApart_without (fun _ => Or.inl) first tree isTree
      fun birth above below => Or.inr ⟨above, by omega⟩
  unfold symbolTree at before ⊢
  cases isSafe : source.nullSafe with
  | false =>
      rw [isSafe, if_neg Bool.false_ne_true] at before
      rw [if_neg Bool.false_ne_true]
      exact (keepsApart_compiledHeap settled apart holds after before name _ _).endsBeside
        varsNamed grows compiledLosses (knows_told known before) (told (Nat.le_refl _))
        heap.evaluators.size (frames + 2) 2
  | true =>
      rw [isSafe, if_pos rfl, Reference.tellApart_nullSafe] at before
      rw [if_pos rfl, Reference.tellApart_nullSafe]
      have inside := Nat.le_of_succ_le before
      have fresh := Value.tellApart_le first tree
      have unlost : (compiledHeap source forms heap).left? (tree.tellApart first).2 = none :=
        (compiledHeap_left source forms heap _).trans (settled.unlost (by omega))
      exact (keepsApart_compiledHeap settled apart holds after inside name _ _).endsBeside_guard
        varsNamed (unbound isSafe) grows compiledLosses (knows_told known inside)
        (told (Nat.le_refl _)) unlost frames shallow

/-- Symbols with the trees of a table, in the order of their names. -/
structure KeepToThemselves (source : ExpressionSource) (heap : Heap) (data : Nat → Prop)
    (symbols : List (String × Value)) : Prop where
  inOrder : symbols.Pairwise fun each later => each.1 < later.1
  inTable : ∀ each ∈ symbols, each.1 ∈ Entries.keys source.table
  known : ∀ each ∈ symbols, heap.Knows each.2
  areTrees : ∀ each ∈ symbols, each.2.IsTreeWithout (source.barred each.1)
    fun birth => birth = 0 ∨ heap.IsUntouched data birth

theorem KeepToThemselves.tail
    {first : String × Value} {rest : List (String × Value)}
    (keep : KeepToThemselves source heap data (first :: rest)) :
    KeepToThemselves source heap data rest where
  inOrder := (List.pairwise_cons.mp keep.inOrder).2
  inTable each member := keep.inTable each (List.mem_cons_of_mem _ member)
  known each member := keep.known each (List.mem_cons_of_mem _ member)
  areTrees each member := keep.areTrees each (List.mem_cons_of_mem _ member)

/-- The symbols with the trees that are evaluated for them. -/
def withTrees (source : ExpressionSource) (symbols : List (String × Value)) :
    List (String × Value) :=
  symbols.map fun each => (each.1, symbolTree source each.2)

/-- Each tree does the same where the symbols before it are bound as where none is. -/
theorem allBeside_told
    (settled : heap.Settled) (apart : heap.Apart) {arguments : Arguments}
    (holds : heap.HoldsData data arguments.event) (deep : 3 ≤ source.config.maxDepth)
    (expression : Expression) (frames : Nat) {symbols : List (String × Value)}
    (keep : KeepToThemselves source heap data symbols) {earlier : List String}
    (earlierNames : ∀ name ∈ earlier,
      name ∈ Entries.keys source.table ∧ ∀ each ∈ symbols, name < each.1)
    (eventLast : source.nullSafe = true →
      Reference.eventSymbol ∈ earlier ++ symbols.map Prod.fst →
        ∀ each ∈ symbols, each.1 ≤ Reference.eventSymbol)
    {first : Nat} (after : heap.births < first)
    (before : (tellSymbolsApart first (withTrees source symbols)).2 ≤
      (compiledHeap source forms heap).births) :
    (compiledHeap source forms heap).AllBeside (parameterVars expression arguments)
      heap.scopes.size heap.evaluators.size (frames + 2) 2 earlier
      (tellSymbolsApart first (withTrees source symbols)).1 := by
  induction symbols generalizing earlier first with
  | nil => exact trivial
  | cons each rest inductionHypothesis =>
      obtain ⟨name, tree⟩ := each
      have nameFirst := (List.pairwise_cons.mp keep.inOrder).1
      have told := Value.tellApart_le first (symbolTree source tree)
      have others := tellSymbolsApart_le ((symbolTree source tree).tellApart first).2
        (withTrees source rest)
      let known (birth : Nat) : Prop :=
        birth = 0 ∨ data birth ∨ ownCode heap data first (tree.tellApart first).2 birth
      refine ⟨⟨known, fun vars later named grows lossless => ?_⟩, ?_⟩
      · have ownNamed : vars.NamedIn (source.barred name) := by
          intro entry member
          obtain ⟨other, isEarlier, isKey⟩ := named entry member
          obtain ⟨isName, less⟩ := earlierNames other isEarlier
          have different := less _ List.mem_cons_self
          refine ⟨other, ExpressionSource.mem_barred isName ?_, isKey⟩
          rintro rfl
          exact String.lt_irrefl _ different
        have unbound (isSafe : source.nullSafe = true) :
            Entries.find? Value.sameKey (.str Reference.eventSymbol) vars = none := by
          refine named.find fun isEarlier => ?_
          have less := (earlierNames _ isEarlier).2 _ List.mem_cons_self
          have le := eventLast isSafe (List.mem_append_left _ isEarlier) _ List.mem_cons_self
          exact String.not_lt.mpr le less
        have compiledLosses : later.losses = heap.losses :=
          lossless.trans (rootedHeap_losses source forms heap)
        exact endsBeside_told settled apart holds deep (keep.known _ List.mem_cons_self)
          (keep.areTrees _ List.mem_cons_self) after (Nat.le_trans others before) expression frames
          ownNamed unbound grows compiledLosses
      · refine inductionHypothesis keep.tail ?_ ?_ (Nat.lt_of_lt_of_le after told) before
        · intro other member
          rcases List.mem_cons.mp member with rfl | member
          · exact ⟨keep.inTable _ List.mem_cons_self, nameFirst⟩
          · obtain ⟨isName, less⟩ := earlierNames other member
            exact ⟨isName, fun each isLater => less each (List.mem_cons_of_mem _ isLater)⟩
        · intro isSafe member each isLater
          refine eventLast isSafe ?_ each (List.mem_cons_of_mem _ isLater)
          simp only [List.cons_append, List.mem_cons, List.mem_append, List.map_cons] at member ⊢
          exact or_left_comm.mp member

theorem current_told
    (settled : heap.Settled) {symbols : List (String × Value)}
    (keep : KeepToThemselves source heap data symbols) {holder : Heap}
    (losses : holder.losses = heap.losses) {first : Nat} (after : heap.births < first) :
    ∀ each ∈ (tellSymbolsApart first (withTrees source symbols)).1,
      holder.current each.2 = each.2 := by
  induction symbols generalizing first with
  | nil => exact fun _ member => absurd member List.not_mem_nil
  | cons each rest inductionHypothesis =>
      obtain ⟨name, tree⟩ := each
      have told := Value.tellApart_le first tree
      have further := Value.tellApart_le first (symbolTree source tree)
      intro other member
      rcases List.mem_cons.mp member with rfl | member
      · have unlost (birth : Nat)
            (isCode : ownCode heap data first (tree.tellApart first).2 birth) :
            holder.left? birth = none := by
          rw [Heap.left?, losses]
          exact isCode.elim (fun untouched => untouched.unlost)
            fun fresh => settled.unlost (by omega)
        have isTree := Value.tellApart_without (fun _ => Or.inl) first tree
          (keep.areTrees _ List.mem_cons_self) fun birth above below =>
            (Or.inr ⟨above, below⟩ : ownCode heap data first (tree.tellApart first).2 birth)
        have current := Value.current_of_without unlost _ isTree
        simp only [symbolTree]
        cases source.nullSafe with
        | false => exact current
        | true =>
            have guardUnlost : holder.left? (tree.tellApart first).2 = none := by
              rw [Heap.left?, losses]
              exact settled.unlost (by omega)
            rw [if_pos rfl, Reference.tellApart_nullSafe, Reference.current_guard guardUnlost,
              current]
      · exact inductionHypothesis keep.tail (Nat.lt_of_lt_of_le after further) other member

theorem calledSymbols_eq
    (settled : heap.Settled) {symbols : List (String × Value)}
    (keep : KeepToThemselves source heap data symbols)
    (areSymbols : symbolsOf source forms = withTrees source symbols) (globals : Nat)
    (arguments : Arguments) :
    calledSymbols source forms heap globals arguments = (toldSymbols source forms heap).1 := by
  have told {holder : Heap} (losses : holder.losses = heap.losses) :
      ∀ each ∈ (toldSymbols source forms heap).1, holder.current each.2 = each.2 := by
    rw [toldSymbols, areSymbols]
    exact current_told settled keep losses (Nat.lt_succ_self _)
  have same {holder : Heap} (losses : holder.losses = heap.losses) :
      ((toldSymbols source forms heap).1.map fun each => (each.1, holder.current each.2)) =
        (toldSymbols source forms heap).1 :=
    Heap.Settled.map_eq_of_forall fun each member => Prod.ext rfl (told losses each member)
  have losses := rootedHeap_losses source forms heap
  simp only [calledSymbols, same losses]
  exact same losses

/-- The worker that does what a call of an expression with symbols asks for. -/
def bindingWorker (source : ExpressionSource) (forms : List Value) (heap : Heap) (globals : Nat)
    (arguments : Arguments) (watch : Watch) (alarm : Fault) (frames : Nat) : Worker :=
  Eval.watched watch alarm frames [bindingTask source forms heap,
    (compiledExpression source forms globals heap).enterTask arguments 0,
    (compiledExpression source forms globals heap).callTask arguments]

/-- A call of an expression binds its symbols one after the other and then evaluates the
body. -/
theorem perform_call_bound
    (settled : heap.Settled) (deep : 3 ≤ source.config.maxDepth)
    {symbols : List (String × Value)} (keep : KeepToThemselves source heap data symbols)
    (areSymbols : symbolsOf source forms = withTrees source symbols) (some : symbols ≠ [])
    (areTrees : Value.AllTrees forms) (globals : Nat) (arguments : Arguments) (watch : Watch)
    (alarm : Fault) (frames : Nat)
    (calm : ∀ holder,
      watch [(compiledExpression source forms globals heap).callTask arguments] holder = false)
    (calmInside : ∀ holder,
      watch [(compiledExpression source forms globals heap).enterTask arguments 0,
        (compiledExpression source forms globals heap).callTask arguments] holder = false)
    (calmBinding : ∀ holder,
      watch [bindingTask source forms heap,
        (compiledExpression source forms globals heap).enterTask arguments 0,
        (compiledExpression source forms globals heap).callTask arguments] holder = false) :
    let worker := bindingWorker source forms heap globals arguments watch alarm frames
    let site : Site := ⟨heap.evaluators.size, (compiledHeap source forms heap).scopes.size + 1, 2⟩
    (Eval.watched watch alarm (frames + 3) []
        ((compiledExpression source forms globals heap).callTask arguments)).perform
          (compiledHeap source forms heap) =
      (Eval.bindAll worker site (toldSymbols source forms heap).1 >>= fun _ =>
        Eval.bodyOf worker site (listBirth source forms heap)
          [((bodyTree forms).tellApart (bodyBirth source forms heap)).1]).perform
        ((compiledHeap source forms heap).bound
          (parameterVars (compiledExpression source forms globals heap) arguments) []
          heap.scopes.size) := by
  have someSymbols : symbolsOf source forms ≠ [] := by
    rw [areSymbols, withTrees]
    simpa using some
  have called := perform_call_of_symbols globals (by omega) (fun _ => settled.unlost) areTrees
    someSymbols arguments watch alarm frames calm calmInside calmBinding
  rw [calledSymbols_eq settled keep areSymbols, Eval.perform_letIn] at called
  exact called

theorem run_bound
    (settled : heap.Settled) (deep : 3 ≤ source.config.maxDepth)
    {symbols : List (String × Value)} (keep : KeepToThemselves source heap data symbols)
    (areSymbols : symbolsOf source forms = withTrees source symbols) (some : symbols ≠ [])
    (areTrees : Value.AllTrees forms) (globals : Nat) (arguments : Arguments) :
    let worker := Eval.solve (Eval.frameLimit - 3)
    let site : Site := ⟨heap.evaluators.size, (compiledHeap source forms heap).scopes.size + 1, 2⟩
    ((compiledExpression source forms globals heap).run arguments).run
        (compiledHeap source forms heap) =
      (Eval.bindAll worker site (toldSymbols source forms heap).1 >>= fun _ =>
        Eval.bodyOf worker site (listBirth source forms heap)
          [((bodyTree forms).tellApart (bodyBirth source forms heap)).1]).perform
        ((compiledHeap source forms heap).bound
          (parameterVars (compiledExpression source forms globals heap) arguments) []
          heap.scopes.size) := by
  have unwatched := perform_call_bound settled deep keep areSymbols some areTrees globals arguments
    .never (.unbound "") (Eval.frameLimit - 3) (fun _ => rfl) (fun _ => rfl) fun _ => rfl
  simp only [bindingWorker, Eval.watched_never] at unwatched
  exact unwatched

theorem listBirth_lt (some : symbolsOf source forms ≠ []) :
    listBirth source forms heap < (compiledHeap source forms heap).births := by
  have told := @toldHeap_births source forms heap
  rw [tellApart_treeOf some] at told
  have le := toldHeap_le_rootedHeap source forms heap
  change _ < (rootedHeap source forms heap).births + 1
  omega

/-- A call of an expression whose text is one symbol ends as the tree of the symbol does. -/
theorem run_alone
    (settled : heap.Settled) (apart : heap.Apart) {arguments : Arguments}
    (holds : heap.HoldsData data arguments.event) (deep : 3 ≤ source.config.maxDepth)
    {name : String} {tree : Value} (noKeyword : name.toList.head? ≠ some ':')
    (noConstant : name ∉ ["nil", "true", "false"])
    (keep : KeepToThemselves source heap data [(name, tree)])
    (areSymbols : symbolsOf source [.symbol name] = withTrees source [(name, tree)])
    (globals : Nat) :
    let single := compiledExpression source [.symbol name] globals heap
    let run := (single.run arguments).run (compiledHeap source [.symbol name] heap)
    let ending := (compiledHeap source [.symbol name] heap).aloneEnding
      (parameterVars single arguments) heap.scopes.size heap.evaluators.size
      (Eval.frameLimit - 3) 2 ((symbolTree source tree).tellApart (heap.births + 1)).1
    run.1 = ending.1 ∧ run.2.losses = ending.2.losses := by
  have ran := run_bound settled deep keep areSymbols (List.cons_ne_nil _ _) ⟨trivial, trivial⟩
    globals arguments
  simp only [ran]
  have toldIs : toldSymbols source [.symbol name] heap =
      ([(name, ((symbolTree source tree).tellApart (heap.births + 1)).1)],
        ((symbolTree source tree).tellApart (heap.births + 1)).2) := by
    rw [toldSymbols, areSymbols]
    rfl
  have bodyIs (next : Nat) : (bodyTree [.symbol name]).tellApart next =
      (.list [.symbol "do", .symbol name] next, next + 1) := rfl
  have some : symbolsOf source [.symbol name] ≠ [] := by
    rw [areSymbols]
    exact List.cons_ne_nil _ _
  have lastIs : listBirth source [.symbol name] heap =
      bodyBirth source [.symbol name] heap + 1 := by
    rw [listBirth, bodyIs]
  have last := @listBirth_lt source [.symbol name] heap some
  have firstIs : bodyBirth source [.symbol name] heap =
      ((symbolTree source tree).tellApart (heap.births + 1)).2 + 1 := by
    rw [bodyBirth, toldIs]
  have treeEnd : (tree.tellApart (heap.births + 1)).2 ≤
      ((symbolTree source tree).tellApart (heap.births + 1)).2 := by
    unfold symbolTree
    split
    · rw [Reference.tellApart_nullSafe]
      exact Nat.le_succ _
    · exact Nat.le_refl _
  have treeStart := Value.tellApart_le (heap.births + 1) tree
  have new (birth : Nat) (above : bodyBirth source [.symbol name] heap ≤ birth)
      (below : birth ≤ listBirth source [.symbol name] heap) :
      birth < (compiledHeap source [.symbol name] heap).births ∧
        ¬ (birth = 0 ∨ data birth ∨
          ownCode heap data (heap.births + 1) (tree.tellApart (heap.births + 1)).2 birth) ∧
        (compiledHeap source [.symbol name] heap).left? birth = none := by
    refine ⟨by omega, ?_, (compiledHeap_left _ _ heap birth).trans (settled.unlost (by omega))⟩
    rintro (rfl | isData | untouched | fresh)
    · omega
    · have old := holds.given birth isData
      omega
    · have old := untouched.given
      omega
    · omega
  have noneNamed : ValueEntries.NamedIn (source.barred name) [] :=
    fun _ member => absurd member List.not_mem_nil
  have ends := endsBeside_told settled apart holds deep (keep.known _ List.mem_cons_self)
    (keep.areTrees _ List.mem_cons_self) (Nat.lt_succ_self _)
    (show ((symbolTree source tree).tellApart (heap.births + 1)).2 ≤
      (compiledHeap source [.symbol name] heap).births by omega)
    (compiledExpression source [.symbol name] globals heap) (Eval.frameLimit - 5) noneNamed
    (fun _ => rfl) (.refl _) (rootedHeap_losses source [.symbol name] heap)
  have shallow : ¬ (compiledHeap source [.symbol name] heap).maxDepth heap.evaluators.size <
      2 + 1 := by
    rw [compiledHeap_maxDepth]
    omega
  rw [toldIs, bodyIs]
  exact ends.perform_single noKeyword noConstant shallow
    (new _ (Nat.le_refl _) (by omega)) (new _ (by omega) (Nat.le_refl _))

end Compiled

end Expression

end CueScript
