import CueScript.Expression
import CueScript.Proofs.Reader.Trees
import CueScript.Proofs.Run.Watch

/-!
# Compiling within bounds

What an expression is compiled to keeps to the bounds that its text and its table keep
to: trees that are read refer to nothing, and telling them apart only gives them
numbers.
-/

namespace CueScript

namespace Value

variable {bounds : Bounds}

mutual

/-- Trees refer to nothing. -/
theorem within_of_isTree
    (unnumbered : ∀ items, bounds.Lists 0 items) (value : Value) (isTree : IsTree value) :
    Within bounds value := by
  cases value with
  | list items birth =>
      obtain ⟨rfl, areTrees⟩ := isTree
      exact ⟨unnumbered items, allWithin_of_allTrees unnumbered items areTrees⟩
  | vector items birth =>
      obtain ⟨rfl, areTrees⟩ := isTree
      exact ⟨unnumbered items, allWithin_of_allTrees unnumbered items areTrees⟩
  | quoted form => exact within_of_isTree unnumbered form isTree
  | symbol _ | int _ | float _ _ | str _ => exact trivial
  | _ => exact isTree.elim

theorem allWithin_of_allTrees
    (unnumbered : ∀ items, bounds.Lists 0 items) (items : List Value) (areTrees : AllTrees items) :
    AllWithin bounds items := by
  cases items with
  | nil => exact trivial
  | cons item rest =>
      exact ⟨within_of_isTree unnumbered item areTrees.1,
        allWithin_of_allTrees unnumbered rest areTrees.2⟩

end

theorem numbered_known
    {birth next : Nat}
    (known : bounds.births birth) (fresh : ∀ later, next ≤ later → bounds.births later) :
    bounds.births (numbered birth next).1 ∧ next ≤ (numbered birth next).2 := by
  unfold numbered
  split
  · exact ⟨fresh next (Nat.le_refl _), Nat.le_succ _⟩
  · exact ⟨known, Nat.le_refl _⟩

theorem lists_tellItemsApart
    (stable : ∀ birth item next, bounds.contents birth item →
      bounds.contents birth (tellApart next item).1)
    (next : Nat) {birth : Nat} {items : List Value}
    (contents : ∀ item ∈ items, bounds.contents birth item) :
    ∀ item ∈ (tellItemsApart next items).1, bounds.contents birth item := by
  induction items generalizing next with
  | nil => exact contents
  | cons item rest inductionHypothesis =>
      intro told member
      rcases List.mem_cons.mp member with rfl | later
      · exact stable birth item next (contents item List.mem_cons_self)
      · exact inductionHypothesis _
          (fun other isOther => contents other (List.mem_cons_of_mem item isOther)) told later

/-- A list that has been told apart may hold what it holds. -/
theorem lists_numbered
    (stable : ∀ birth item next, bounds.contents birth item →
      bounds.contents birth (tellApart next item).1)
    {birth next later : Nat} {items : List Value} (lists : bounds.Lists birth items)
    (after : next ≤ later) (fresh : ∀ later, next ≤ later → bounds.births later)
    (unused : ∀ later item, next ≤ later → bounds.contents later item) :
    bounds.Lists (numbered birth later).1 (tellItemsApart next items).1 := by
  unfold numbered
  split
  · exact ⟨fresh later after, fun item _ => unused later item after⟩
  · exact ⟨lists.1, lists_tellItemsApart stable next lists.2⟩

mutual

/-- Telling apart gives only new numbers. -/
theorem within_tellApart
    (stable : ∀ birth item next, bounds.contents birth item →
      bounds.contents birth (tellApart next item).1) (next : Nat)
    (fresh : ∀ later, next ≤ later → bounds.births later)
    (unused : ∀ later item, next ≤ later → bounds.contents later item) (value : Value)
    (within : Within bounds value) :
    Within bounds (tellApart next value).1 ∧ next ≤ (tellApart next value).2 := by
  cases value with
  | list items birth =>
      obtain ⟨itemsWithin, after⟩ := allWithin_tellApart stable next fresh unused items within.2
      have last := (numbered_known within.1.1 fun later le =>
        fresh later (Nat.le_trans after le)).2
      exact ⟨⟨lists_numbered stable within.1 after fresh unused, itemsWithin⟩,
        Nat.le_trans after last⟩
  | vector items birth =>
      obtain ⟨itemsWithin, after⟩ := allWithin_tellApart stable next fresh unused items within.2
      have last := (numbered_known within.1.1 fun later le =>
        fresh later (Nat.le_trans after le)).2
      exact ⟨⟨lists_numbered stable within.1 after fresh unused, itemsWithin⟩,
        Nat.le_trans after last⟩
  | map entries birth =>
      obtain ⟨entriesWithin, after⟩ :=
        entriesWithin_tellApart stable next fresh unused entries within.2
      obtain ⟨known, last⟩ := numbered_known within.1 fun later le =>
        fresh later (Nat.le_trans after le)
      exact ⟨⟨known, entriesWithin⟩, Nat.le_trans after last⟩
  | tuple items => exact allWithin_tellApart stable next fresh unused items within
  | quoted form => exact within_tellApart stable next fresh unused form within
  | float number birth =>
      cases number with
      | nan =>
          refine ⟨trivial, ?_⟩
          simp only [tellApart, numbered]
          split
          · exact Nat.le_succ _
          · exact Nat.le_refl _
      | _ => exact ⟨within, Nat.le_refl _⟩
  | _ => exact ⟨within, Nat.le_refl _⟩

theorem allWithin_tellApart
    (stable : ∀ birth item next, bounds.contents birth item →
      bounds.contents birth (tellApart next item).1) (next : Nat)
    (fresh : ∀ later, next ≤ later → bounds.births later)
    (unused : ∀ later item, next ≤ later → bounds.contents later item) (items : List Value)
    (within : AllWithin bounds items) :
    AllWithin bounds (tellItemsApart next items).1 ∧ next ≤ (tellItemsApart next items).2 := by
  cases items with
  | nil => exact ⟨trivial, Nat.le_refl _⟩
  | cons item rest =>
      obtain ⟨itemWithin, after⟩ := within_tellApart stable next fresh unused item within.1
      obtain ⟨restWithin, last⟩ := allWithin_tellApart stable (tellApart next item).2
        (fun later le => fresh later (Nat.le_trans after le))
        (fun later other le => unused later other (Nat.le_trans after le)) rest within.2
      exact ⟨⟨itemWithin, restWithin⟩, Nat.le_trans after last⟩

theorem entriesWithin_tellApart
    (stable : ∀ birth item next, bounds.contents birth item →
      bounds.contents birth (tellApart next item).1) (next : Nat)
    (fresh : ∀ later, next ≤ later → bounds.births later)
    (unused : ∀ later item, next ≤ later → bounds.contents later item)
    (entries : List (Value × Value)) (within : EntriesWithin bounds entries) :
    EntriesWithin bounds (tellEntriesApart next entries).1 ∧
      next ≤ (tellEntriesApart next entries).2 := by
  cases entries with
  | nil => exact ⟨trivial, Nat.le_refl _⟩
  | cons entry rest =>
      obtain ⟨entryWithin, after⟩ := entryWithin_tellApart stable next fresh unused entry within.1
      obtain ⟨restWithin, last⟩ := entriesWithin_tellApart stable (tellEntryApart next entry).2
        (fun later le => fresh later (Nat.le_trans after le))
        (fun later other le => unused later other (Nat.le_trans after le)) rest within.2
      exact ⟨⟨entryWithin, restWithin⟩, Nat.le_trans after last⟩

theorem entryWithin_tellApart
    (stable : ∀ birth item next, bounds.contents birth item →
      bounds.contents birth (tellApart next item).1) (next : Nat)
    (fresh : ∀ later, next ≤ later → bounds.births later)
    (unused : ∀ later item, next ≤ later → bounds.contents later item)
    (entry : Value × Value) (within : EntryWithin bounds entry) :
    EntryWithin bounds (tellEntryApart next entry).1 ∧ next ≤ (tellEntryApart next entry).2 := by
  cases entry with
  | mk key value =>
      obtain ⟨keyWithin, after⟩ := within_tellApart stable next fresh unused key within.1
      obtain ⟨valueWithin, last⟩ := within_tellApart stable (tellApart next key).2
        (fun later le => fresh later (Nat.le_trans after le))
        (fun later other le => unused later other (Nat.le_trans after le)) value within.2
      exact ⟨⟨keyWithin, valueWithin⟩, Nat.le_trans after last⟩

end

end Value

namespace Expression

variable {bounds : Bounds}

/-! ## Forms -/

/-- Whether the trees of a table may be met. -/
def TableWithin (bounds : Bounds) (table : BindingTable) : Prop :=
  ∀ entry ∈ table, entry.2.extract.Within bounds

theorem within_scan
    (unnumbered : ∀ items, bounds.Lists 0 items) {table : BindingTable}
    (tableWithin : TableWithin bounds table) (forms : List Value) (safe : Bool) :
    ∀ each ∈ Reference.scan forms table safe, each.extract.Within bounds := by
  intro each member
  obtain ⟨entry, isUsed, rfl⟩ := List.mem_map.mp member
  have isEntry : entry ∈ table := (List.mem_filter.mp (List.mem_mergeSort.mp isUsed)).1
  have extractWithin := tableWithin entry isEntry
  cases safe with
  | false => exact extractWithin
  | true => exact ⟨unnumbered _, trivial, trivial, extractWithin, trivial⟩

theorem within_synthesize
    (unnumbered : ∀ items, bounds.Lists 0 items) {forms : List Value}
    {references : List Reference}
    (areTrees : Value.AllTrees forms)
    (referencesWithin : ∀ each ∈ references, each.extract.Within bounds) :
    (synthesize forms references).Within bounds := by
  have bodyWithin : (Value.list (.symbol "do" :: forms) 0).Within bounds :=
    ⟨unnumbered _, trivial, Value.allWithin_of_allTrees unnumbered forms areTrees⟩
  have pairsWithin : Value.AllWithin bounds
      (references.flatMap fun each => [.symbol each.name, each.extract]) := by
    rw [Value.allWithin_iff]
    intro item member
    obtain ⟨each, isReference, inPair⟩ := List.mem_flatMap.mp member
    rcases List.mem_cons.mp inPair with rfl | inPair
    · exact trivial
    · rw [List.mem_singleton.mp inPair]
      exact referencesWithin each isReference
  have parametersWithin : Value.AllWithin bounds (parameters.map .symbol) :=
    ⟨trivial, trivial, trivial, trivial⟩
  unfold synthesize
  simp only
  split
  · exact ⟨unnumbered _, trivial, ⟨unnumbered _, parametersWithin⟩, bodyWithin, trivial⟩
  · exact ⟨unnumbered _, trivial, ⟨unnumbered _, parametersWithin⟩,
      ⟨unnumbered _, trivial, ⟨unnumbered _, pairsWithin⟩, bodyWithin, trivial⟩, trivial⟩

theorem read_of_formsOf
    {heap : Heap} {text : List Char} {filename : String} {forms : List Value}
    (formed : formsOf heap text filename = .ok forms) :
    read text = .ok forms ∧ (ShapeCheck.run forms).fault = none := by
  unfold formsOf at formed
  cases reads : read text with
  | error fault =>
      rw [reads] at formed
      cases formed
  | ok found =>
      rw [reads] at formed
      simp only [Except.mapError, bind, Except.bind] at formed
      split at formed
      · rename_i sound
        cases formed
        exact ⟨rfl, sound⟩
      · cases formed

/-! ## The site of an expression -/

theorem entriesWithin_rootVars (lineage : Option Lineage) (evaluators : Array EvaluatorState) :
    Agree (.alone bounds evaluators) (Value.EntriesWithin bounds) fun _ => rootVars lineage := by
  have builtins : Value.EntriesWithin bounds
      (Builtin.table.map fun entry => (Value.str entry.1, Value.builtin entry.2)) := by
    rw [Value.entriesWithin_iff]
    intro entry member
    obtain ⟨each, -, rfl⟩ := List.mem_map.mp member
    exact ⟨trivial, trivial⟩
  unfold rootVars
  cases lineage with
  | none => exact .pure builtins
  | some each =>
      exact .bind .newId fun id _ => .pure (Value.entriesWithin_put builtins trivial trivial)

/-- What opening a site does after the evaluator is made. -/
def openRoot (evaluator : Nat) (lineage : Option Lineage) : Action Site := do
  let vars ← Action.newVariables (← rootVars lineage)
  let scope ← Action.change fun heap => heap.openScope vars none
  return ⟨evaluator, scope, 0⟩

theorem openRoot_keeps
    {heap : Heap} (within : heap.Within bounds) (evaluator : Nat) (lineage : Option Lineage) :
    (openRoot evaluator lineage).Keeps bounds
      (fun site => bounds.scopes site.scope ∧ site.evaluator = evaluator ∧ site.depth = 0)
      heap := by
  refine Agree.keeps ?_ within
  refine .bind (entriesWithin_rootVars lineage heap.evaluators) fun vars varsWithin => ?_
  refine .bind (.newVariables varsWithin) fun opened openedWithin => ?_
  have opens : Agree (.alone bounds heap.evaluators) bounds.scopes fun _ =>
      Action.change fun heap => heap.openScope opened none :=
    .change (fun _ _ => rfl) fun later laterWithin =>
      laterWithin.openScope openedWithin fun _ same => nomatch same
  exact .bind opens fun scope known => .pure ⟨known, rfl, rfl⟩

/-! ## Compiling -/

/-- The references of a source with some forms. -/
def referencesOf (source : ExpressionSource) (forms : List Value) : List Reference :=
  Reference.scan forms source.table source.nullSafe

/-- Make the form and the function of an expression. -/
def build (source : ExpressionSource) (forms : List Value) : Action (Value × Value) := do
  let form ← tellApart (synthesize forms (referencesOf source forms))
  let site ← openSite source.config source.lineage
  let function ← Eval.perform (.evaluate site.evaluator site.scope form site.depth)
  return (form, function)

/-- An expression with some form and function. -/
def ofParts (source : ExpressionSource) (forms : List Value) (globals : Nat)
    (form function : Value) (locals : Nat) : Expression where
  text := source.text
  name := source.label
  references := referencesOf source forms
  form := form
  function := function
  config := source.config
  locals := locals
  globals := globals

/-- Compiling fails where its function cannot be made. -/
theorem compile_of_error
    {source : ExpressionSource} {forms : List Value} (globals : Nat) {heap after : Heap}
    {fault : Fault}
    (formed : formsOf heap source.text.toList source.label = .ok forms)
    (built : (build source forms).perform heap = (.error fault, after)) :
    ((compile source globals).run heap).1.outcome = .error (fault.report?.getD default) ∧
      ((compile source globals).run heap).2 = after := by
  simp only [build, referencesOf, Action.perform, ExceptT.run, StateT.run, bind, pure] at built
  simp only [compile, get, getThe, MonadStateOf.get, StateT.get, StateT.run, bind,
    StateT.bind, pure, formed, observed, ExceptT.run, built]
  exact ⟨rfl, rfl⟩

/-- Compiling makes the function of the forms and opens a store. -/
theorem compile_of_ok
    {source : ExpressionSource} {forms : List Value} (globals : Nat) {heap after : Heap}
    {form function : Value}
    (formed : formsOf heap source.text.toList source.label = .ok forms)
    (built : (build source forms).perform heap = (.ok (form, function), after)) :
    ((compile source globals).run heap).1.outcome =
        .ok (ofParts source forms globals form function after.stores.size) ∧
      ((compile source globals).run heap).2 =
        (after.openStore (source.label ++ " locals") []).2 := by
  simp only [build, referencesOf, Action.perform, ExceptT.run, StateT.run, bind, pure] at built
  simp only [compile, get, getThe, MonadStateOf.get, StateT.get, StateT.run, bind,
    StateT.bind, pure, formed, observed, ExceptT.run, built]
  exact ⟨rfl, rfl⟩

/-- Compiling does nothing where the text has no forms that are fit. -/
theorem compile_of_unfit
    {source : ExpressionSource} (globals : Nat) {heap : Heap} {report : Report}
    (unfit : formsOf heap source.text.toList source.label = .error report) :
    ((compile source globals).run heap).1.outcome = .error report ∧
      ((compile source globals).run heap).2 = heap := by
  simp only [compile, get, getThe, MonadStateOf.get, StateT.get, StateT.run, bind,
    StateT.bind, pure, unfit]
  exact ⟨rfl, rfl⟩

/-- How a compiled expression came about. -/
theorem exists_of_compile
    {source : ExpressionSource} {globals : Nat} {heap : Heap} {expression : Expression}
    (compiled : ((compile source globals).run heap).1.outcome = .ok expression) :
    ∃ forms form function made,
      read source.text.toList = .ok forms ∧ (ShapeCheck.run forms).fault = none ∧
        (build source forms).perform heap = (.ok (form, function), made) ∧
        expression = ofParts source forms globals form function made.stores.size ∧
        ((compile source globals).run heap).2 =
          (made.openStore (source.label ++ " locals") []).2 := by
  cases formed : formsOf heap source.text.toList source.label with
  | error report =>
      rw [(compile_of_unfit globals formed).1] at compiled
      cases compiled
  | ok forms =>
      obtain ⟨isRead, passes⟩ := read_of_formsOf formed
      rcases built : (build source forms).perform heap with ⟨outcome, made⟩
      cases outcome with
      | error fault =>
          rw [(compile_of_error globals formed built).1] at compiled
          cases compiled
      | ok parts =>
          obtain ⟨form, function⟩ := parts
          obtain ⟨isOk, opened⟩ := compile_of_ok globals formed built
          rw [isOk] at compiled
          cases compiled
          exact ⟨forms, form, function, made, isRead, passes, built, rfl, opened⟩

/-- Telling apart uses up some numbers. -/
theorem becomes_tellApart
    {heap : Heap} {tree : Value}
    (stable : ∀ birth item next, bounds.contents birth item →
      bounds.contents birth (Value.tellApart next item).1)
    (heapWithin : heap.Within bounds) (treeWithin : tree.Within bounds) :
    (tree.tellApart heap.births).1.Within bounds ∧
      Heap.Becomes bounds heap { heap with births := (tree.tellApart heap.births).2 } := by
  obtain ⟨toldWithin, later⟩ :=
    Value.within_tellApart stable heap.births heapWithin.freshBirths heapWithin.freshContents tree
      treeWithin
  refine ⟨toldWithin, { Heap.Extends.refl heap with births := later }, ?_⟩
  exact
    { heapWithin with
      freshBirths := fun birth fresh =>
        heapWithin.freshBirths birth (Nat.le_trans later fresh)
      freshContents := fun birth item fresh =>
        heapWithin.freshContents birth item (Nat.le_trans later fresh) }

/-- The heap in which the function of a source is made, once its forms are told apart. -/
def toldHeap (source : ExpressionSource) (forms : List Value) (heap : Heap) : Heap :=
  let tree := synthesize forms (referencesOf source forms)
  { heap with
    births := (tree.tellApart heap.births).2
    evaluators := heap.evaluators.push ⟨source.config, 0⟩ }

/-- Making a function comes down to evaluating its form at a new site. -/
theorem perform_build
    (source : ExpressionSource) (forms : List Value) (heap : Heap) :
    (build source forms).perform heap =
      ((openRoot heap.evaluators.size source.lineage >>= fun site =>
        Eval.perform (.evaluate site.evaluator site.scope
          ((synthesize forms (referencesOf source forms)).tellApart heap.births).1
          site.depth) >>= fun function =>
            pure (((synthesize forms (referencesOf source forms)).tellApart heap.births).1,
              function)) : Action (Value × Value)).perform (toldHeap source forms heap) := rfl

/-- Evaluating a function makes a closure, unless it is too deep. -/
theorem perform_function
    {heap : Heap} {form : Value} {args : List Value} {birth : Nat} {name : String}
    {params : List String} {rest : Option String} {body : List Value} (evaluator scope : Nat)
    (depth : Int)
    (isForm : heap.current form = .list (.symbol "fn" :: args) birth)
    (isFunction : SpecialForm.ofForm? "fn" (.symbol "fn" :: args) =
      some (.ok (.function name params rest body))) :
    (Eval.perform (.evaluate evaluator scope form depth)).perform heap =
      (if heap.maxDepth evaluator < depth then
        throw (.depthExceeded (heap.maxDepth evaluator))
      else do
        return .closure (← Action.newId) name params rest body scope evaluator :
          Action Value).perform heap := by
  change (Eval.step (Eval.solve 99999) (.evaluate evaluator scope form depth)).perform heap = _
  rw [Eval.step, Action.perform_get_bind]
  by_cases tooDeep : heap.maxDepth evaluator < depth
  · simp only [if_pos tooDeep]
  · simp only [if_neg tooDeep]
    have present : (Action.current form).perform heap =
        (.ok (.list (.symbol "fn" :: args) birth), heap) := by
      rw [← isForm]
      rfl
    rw [Action.perform_bind_ok present]
    simp only [Eval.formAt, Eval.symbolCombination, isFunction, Eval.special, Site.inner]

/-- Making a function adds an evaluator and keeps to bounds within which everything may be
evaluated. -/
theorem build_keeps
    {source : ExpressionSource} {forms : List Value} {heap : Heap}
    (total : ∀ item, bounds.code item) (losable : ∀ birth, bounds.losable birth)
    (unnumbered : ∀ items, bounds.Lists 0 items)
    (stable : ∀ birth item next, bounds.contents birth item →
      bounds.contents birth (Value.tellApart next item).1) (escapes : bounds.escapes)
    (owner : bounds.evaluators heap.evaluators.size)
    (heapWithin : heap.Within bounds)
    (tableWithin : TableWithin bounds source.table)
    (areTrees : Value.AllTrees forms) :
    ((build source forms).perform heap).2.evaluators =
        heap.evaluators.push ⟨source.config, 0⟩ ∧
      ((build source forms).perform heap).2.Within bounds ∧
      ∀ form function, ((build source forms).perform heap).1 = .ok (form, function) →
        function.Within bounds := by
  have treeWithin := within_synthesize unnumbered areTrees
    (within_scan unnumbered tableWithin forms source.nullSafe)
  obtain ⟨toldWithin, toldBecomes⟩ := becomes_tellApart stable heapWithin treeWithin
  have startWithin : (toldHeap source forms heap).Within bounds :=
    (toldBecomes.equip (heap.evaluators.push ⟨source.config, 0⟩)).within
  have keeps : ((openRoot heap.evaluators.size source.lineage >>= fun site =>
        Eval.perform (.evaluate site.evaluator site.scope
          ((synthesize forms (referencesOf source forms)).tellApart heap.births).1
          site.depth) >>= fun function =>
            pure (((synthesize forms (referencesOf source forms)).tellApart heap.births).1,
              function)) : Action (Value × Value)).Keeps bounds (fun pair => pair.2.Within bounds)
        (toldHeap source forms heap) := by
    refine (openRoot_keeps startWithin heap.evaluators.size source.lineage).bind ?_
    intro site after ⟨scopeKnown, isOwner, _⟩ afterWithin
    have ownerKnown : bounds.evaluators site.evaluator := isOwner ▸ owner
    have performed := Eval.perform_keeps unnumbered total losable escapes afterWithin
      (show (Task.evaluate site.evaluator site.scope _ site.depth).Within bounds from
        ⟨ownerKnown, scopeKnown, toldWithin, total _⟩)
    refine performed.bind fun function final functionWithin finalWithin => ?_
    exact .pure finalWithin functionWithin
  rw [perform_build]
  exact ⟨keeps.evaluators, keeps.becomes.within, fun form function isOk =>
    keeps.value (form, function) isOk⟩

/-! ## Calling -/

/-- The piece of work that running an expression is. -/
def callTask (expression : Expression) (arguments : Arguments) : Task :=
  .call expression.function
    [arguments.event, .store (arguments.locals.getD expression.locals),
      .store (arguments.globals.getD expression.globals)]

theorem run_eq (expression : Expression) (arguments : Arguments) (heap : Heap) :
    (expression.run arguments).run heap =
      (Eval.perform (expression.callTask arguments)).perform heap := rfl

theorem callTask_within
    {expression : Expression} {arguments : Arguments}
    (stores : ∀ id, bounds.stores id)
    (functionWithin : expression.function.Within bounds)
    (eventWithin : arguments.event.Within bounds) :
    (expression.callTask arguments).Within bounds :=
  ⟨functionWithin, eventWithin, stores _, stores _, trivial⟩

end Expression

end CueScript
