import CueScript.Proofs.Run.Compile
import CueScript.Proofs.Run.Current
import CueScript.Proofs.Twin.Settled

/-!
# The body of an expression

Compiling makes a closure of the event and of two stores.  Its body is the forms of the
text, with the symbols that they mention bound around them.  So a call opens a scope for
what the expression is called with, and, where there are symbols, one inside it in which
their trees are evaluated one after the other, and then the body.
-/

namespace CueScript

namespace Heap

/-! ## Scopes of their own -/

/-- A heap with one more scope that has variables in a table of its own. -/
def opened (heap : Heap) (vars : ValueEntries) (outer : List Nat) : Heap :=
  { heap with
    tables := heap.tables.push vars
    scopes := heap.scopes.push ⟨.table heap.tables.size, outer⟩ }

theorem perform_childScope
    {heap : Heap} {parent table : Nat} {outer : List Nat}
    (isScope : heap.scopes[parent]? = some ⟨.table table, outer⟩) (vars : ValueEntries) :
    (Action.childScope parent vars).perform heap =
      (.ok heap.scopes.size, heap.opened vars (parent :: outer)) := by
  change (if (heap.openTable vars).2.canOpenInside parent then
      (Action.change fun later => later.openScope (.table heap.tables.size) (some parent) :
        Action Nat)
    else
      Action.fail .noAttribute).perform (heap.openTable vars).2 = _
  simp only [canOpenInside, openTable, isScope, if_true, Action.perform_change, openScope,
    opened]

theorem opened_scope (heap : Heap) (vars : ValueEntries) (outer : List Nat) :
    (heap.opened vars outer).scopes[heap.scopes.size]? =
      some ⟨.table heap.tables.size, outer⟩ :=
  Array.getElem?_push_size

theorem opened_table (heap : Heap) (vars : ValueEntries) (outer : List Nat) :
    (heap.opened vars outer).table heap.tables.size = vars := by
  simp only [table, opened, Array.getElem?_push_size, Option.getD_some]

theorem setTable_opened (heap : Heap) (vars revised : ValueEntries) (outer : List Nat) :
    (heap.opened vars outer).setTable heap.tables.size revised = heap.opened revised outer := by
  unfold setTable opened
  congr 1
  refine Array.ext_getElem? fun id => ?_
  simp only [Array.getElem?_modify, Array.getElem?_push]
  split
  · subst_vars
    simp
  · simp_all [eq_comm]

/-- A variable of a scope is set in its table. -/
theorem perform_define_table
    {heap : Heap} {scope table : Nat} {outer : List Nat}
    (isScope : heap.scopes[scope]? = some ⟨.table table, outer⟩) (name : String) (value : Value) :
    (Action.define scope (.str name) value).perform heap =
      (.ok ⟨⟩, heap.setTable table
        (Entries.put Value.sameKey (.str name) value (heap.table table))) := by
  have defined : heap.defined scope (.str name) value =
      .ok (table, Entries.put Value.sameKey (.str name) value (heap.table table)) := by
    unfold Heap.defined
    rw [isScope]
    rfl
  unfold Action.define Action.reading
  simp only [bind_assoc, Action.perform_get_bind, defined]
  rfl

/-- A variable of the scope that was opened last is set. -/
theorem perform_define
    (heap : Heap) (vars : ValueEntries) (outer : List Nat) (name : String) (value : Value) :
    (Action.define heap.scopes.size (.str name) value).perform (heap.opened vars outer) =
      (.ok ⟨⟩, heap.opened (Entries.put Value.sameKey (.str name) value vars) outer) := by
  rw [perform_define_table (heap.opened_scope vars outer), opened_table, setTable_opened]

/-- A variable is looked up in the scope that was opened last and then around it. -/
theorem lookup_opened
    {heap : Heap} {vars : ValueEntries} {outer : List Nat} (name : String) :
    (heap.opened vars outer).lookup? heap.scopes.size (.str name) =
      match Entries.find? Value.sameKey (.str name) vars with
      | some value => .ok (some value)
      | none => (heap.opened vars outer).firstValueIn? (.str name) outer := by
  unfold lookup?
  rw [opened_scope]
  simp only [firstValueIn?, opened_scope, valueIn?, opened_table, ValueEntries.get?,
    ValueEntries.withKey, Value.isKey, if_true]
  cases Entries.find? Value.sameKey (.str name) vars <;> rfl

end Heap

namespace Value

mutual

/-- A tree that has just been told apart has lost nothing. -/
theorem current_tellApart
    {heap : Heap} (next : Nat) (unlost : ∀ birth, next ≤ birth → heap.left? birth = none)
    (tree : Value) (isTree : IsTree tree) :
    heap.current (tree.tellApart next).1 = (tree.tellApart next).1 := by
  cases tree with
  | list items birth =>
      obtain ⟨rfl, areTrees⟩ := isTree
      simp only [tellApart, numbered, if_pos]
      rw [Heap.current_list (unlost _ (tellItemsApart_le next items)),
        map_current_tellItemsApart next unlost items areTrees]
  | vector items birth =>
      obtain ⟨rfl, areTrees⟩ := isTree
      simp only [tellApart, numbered, if_pos]
      rw [Heap.current_vector (unlost _ (tellItemsApart_le next items)),
        map_current_tellItemsApart next unlost items areTrees]
  | quoted form =>
      simp only [tellApart]
      rw [Heap.current_quoted, current_tellApart next unlost form isTree]
  | float number birth =>
      cases number with
      | nan => exact Heap.current_float ..
      | _ => exact Heap.current_float ..
  | symbol name => exact Heap.current_symbol name
  | int number => exact Heap.current_int number
  | str text => exact Heap.current_str text
  | _ => exact isTree.elim

theorem map_current_tellItemsApart
    {heap : Heap} (next : Nat) (unlost : ∀ birth, next ≤ birth → heap.left? birth = none)
    (trees : List Value) (areTrees : AllTrees trees) :
    (tellItemsApart next trees).1.map heap.current = (tellItemsApart next trees).1 := by
  cases trees with
  | nil => rfl
  | cons tree rest =>
      simp only [tellItemsApart, List.map_cons]
      rw [current_tellApart next unlost tree areTrees.1,
        map_current_tellItemsApart (tellApart next tree).2
          (fun birth above => unlost birth (Nat.le_trans (tellApart_le next tree) above)) rest
          areTrees.2]

end

end Value

namespace Eval

/-! ## Single forms -/

variable (worker : Worker) {heap : Heap}

theorem perform_evaluate (owner scope : Nat) (tree : Value) (depth : Int) :
    (step worker (.evaluate owner scope tree depth)).perform heap =
      if heap.maxDepth owner < depth then
        (.error (.depthExceeded (heap.maxDepth owner)), heap)
      else
        (formAt worker ⟨owner, scope, depth⟩ (heap.current tree)).perform heap := by
  change (if heap.maxDepth owner < depth then
      (throw (.depthExceeded (heap.maxDepth owner)) : Action Value)
    else
      Action.current tree >>= formAt worker ⟨owner, scope, depth⟩).perform heap = _
  split <;> rfl

theorem perform_evaluate_shallow
    {owner : Nat} {depth : Int} (shallow : ¬ heap.maxDepth owner < depth) (scope : Nat)
    (tree : Value) :
    (step worker (.evaluate owner scope tree depth)).perform heap =
      (formAt worker ⟨owner, scope, depth⟩ (heap.current tree)).perform heap := by
  rw [perform_evaluate, if_neg shallow]

/-- Whether a symbol is a keyword or a constant, which are not looked up. -/
def standsForItself (name : String) : Bool :=
  match name.toList with
  | ':' :: _ :: _ => true
  | _ => decide (name ∈ ["nil", "true", "false"])

theorem symbol_eq_lookup
    {name : String} (lookedUp : standsForItself name = false) (scope : Nat) :
    symbol scope name = Action.lookup scope (.str name) := by
  unfold standsForItself at lookedUp
  unfold symbol
  split
  · rename_i spelled
    rw [spelled] at lookedUp
    cases lookedUp
  · rename_i notKeyword
    split at lookedUp
    · rename_i spelled
      exact absurd spelled (notKeyword _ _)
    · simp only [List.mem_cons, List.not_mem_nil, or_false, decide_eq_false_iff_not,
        not_or] at lookedUp
      split
      · exact absurd rfl lookedUp.1
      · exact absurd rfl lookedUp.2.1
      · exact absurd rfl lookedUp.2.2
      · rfl

theorem perform_lookup
    {scope : Nat} {key value : Value} (isValue : heap.lookup? scope key = .ok (some value)) :
    (Action.lookup scope key).perform heap = (.ok value, heap) := by
  change (Action.reading (fun heap => heap.lookup? scope key) >>= _).perform heap = _
  unfold Action.reading
  simp only [bind_assoc, Action.perform_get_bind, isValue]
  rfl

/-- The last form of a list that has lost nothing is evaluated. -/
theorem perform_bodyOf
    {birth : Nat} (unlost : heap.left? birth = none) (site : Site) (tree : Value) :
    (bodyOf worker site birth [tree]).perform heap =
      (form worker site tree).perform heap := by
  unfold bodyOf Action.upcoming
  simp only [bind_assoc, Action.perform_get_bind, unlost, pure_bind, body, bodyFrom, bind_pure]

end Eval

namespace Expression

/-! ## Symbols around a body -/

/-- The items of a vector that binds symbols to forms. -/
def boundPairs (symbols : List (String × Value)) : List Value :=
  symbols.flatMap fun each => [.symbol each.1, each.2]

/-- A body with symbols bound around it, with the numbers of the vector and of the whole
list. -/
def bindingForm (symbols : List (String × Value)) (body : Value) (vector birth : Nat) : Value :=
  .list [.symbol "let", .vector (boundPairs symbols) vector, body] birth

theorem bindingPairs_boundPairs (symbols : List (String × Value)) :
    SpecialForm.bindingPairs (boundPairs symbols) = .ok symbols := by
  induction symbols with
  | nil => rfl
  | cons each rest inductionHypothesis =>
      change (SpecialForm.bindingPairs (boundPairs rest) >>= fun pairs =>
        pure ((each.1, each.2) :: pairs)) = _
      rw [inductionHypothesis]
      rfl

theorem length_boundPairs (symbols : List (String × Value)) :
    (boundPairs symbols).length = 2 * symbols.length := by
  induction symbols with
  | nil => rfl
  | cons each rest inductionHypothesis =>
      change (boundPairs rest).length + 2 = 2 * (rest.length + 1)
      omega

theorem asLet_boundPairs (symbols : List (String × Value)) (body : Value) (vector : Nat) :
    SpecialForm.asLet [.symbol "let", .vector (boundPairs symbols) vector, body] =
      .ok (.letIn symbols [body]) := by
  unfold SpecialForm.asLet SpecialForm.bindings
  simp only [Value.sequence?, length_boundPairs, Nat.mul_mod_right, if_pos,
    bindingPairs_boundPairs]
  rfl

/-- Each tree under its symbol is told apart, one after the other. -/
def tellSymbolsApart (next : Nat) : List (String × Value) → List (String × Value) × Nat
  | [] => ([], next)
  | (name, tree) :: rest =>
      let (told, after) := tree.tellApart next
      let (others, last) := tellSymbolsApart after rest
      ((name, told) :: others, last)

theorem map_fst_tellSymbolsApart (next : Nat) (symbols : List (String × Value)) :
    (tellSymbolsApart next symbols).1.map Prod.fst = symbols.map Prod.fst := by
  induction symbols generalizing next with
  | nil => rfl
  | cons each rest inductionHypothesis =>
      simp only [tellSymbolsApart, List.map_cons, inductionHypothesis]

theorem tellSymbolsApart_le (next : Nat) (symbols : List (String × Value)) :
    next ≤ (tellSymbolsApart next symbols).2 := by
  induction symbols generalizing next with
  | nil => exact Nat.le_refl next
  | cons each rest inductionHypothesis =>
      exact Nat.le_trans (Value.tellApart_le next each.2) (inductionHypothesis _)

theorem tellItemsApart_boundPairs (next : Nat) (symbols : List (String × Value)) :
    Value.tellItemsApart next (boundPairs symbols) =
      (boundPairs (tellSymbolsApart next symbols).1, (tellSymbolsApart next symbols).2) := by
  induction symbols generalizing next with
  | nil => rfl
  | cons each rest inductionHypothesis =>
      obtain ⟨name, tree⟩ := each
      change Value.tellItemsApart next (.symbol name :: tree :: boundPairs rest) = _
      simp only [Value.tellItemsApart, Value.tellApart, inductionHypothesis, tellSymbolsApart]
      rfl

theorem tellApart_bindingForm (next : Nat) (symbols : List (String × Value)) (body : Value) :
    (bindingForm symbols body 0 0).tellApart next =
      let told := tellSymbolsApart next symbols
      let inner := body.tellApart (told.2 + 1)
      (bindingForm told.1 inner.1 told.2 inner.2, inner.2 + 1) := by
  simp only [bindingForm, Value.tellApart, Value.tellItemsApart, tellItemsApart_boundPairs,
    Value.numbered, if_pos]

theorem current_bindingForm
    {heap : Heap} {vector birth : Nat}
    (vectorUnlost : heap.left? vector = none) (unlost : heap.left? birth = none)
    (symbols : List (String × Value)) (body : Value) :
    heap.current (bindingForm symbols body vector birth) =
      bindingForm (symbols.map fun each => (each.1, heap.current each.2)) (heap.current body)
        vector birth := by
  have pairs : (boundPairs symbols).map heap.current =
      boundPairs (symbols.map fun each => (each.1, heap.current each.2)) := by
    simp [boundPairs, List.map_flatMap, List.flatMap_map]
  rw [bindingForm, Heap.current_list unlost, List.map_cons, List.map_cons, List.map_cons,
    Heap.current_vector vectorUnlost, pairs, Heap.current_symbol]
  rfl

/-! ## Compiling -/

/-- The forms of a text as the body of a function. -/
def bodyTree (forms : List Value) : Value := .list (.symbol "do" :: forms) 0

/-- A body with symbols bound around it, if there are any. -/
def boundTree (body : Value) (symbols : List (String × Value)) : Value :=
  if symbols.isEmpty then body else bindingForm symbols body 0 0

/-- The symbols that a source binds, with the trees that are evaluated for them. -/
def symbolsOf (source : ExpressionSource) (forms : List Value) : List (String × Value) :=
  (referencesOf source forms).map fun each => (each.name, each.extract)

/-- The forms of a source with its symbols bound around them. -/
def treeOf (source : ExpressionSource) (forms : List Value) : Value :=
  boundTree (bodyTree forms) (symbolsOf source forms)

theorem synthesize_eq (source : ExpressionSource) (forms : List Value) :
    synthesize forms (referencesOf source forms) =
      .list [.symbol "fn", .vector (parameters.map .symbol) 0, treeOf source forms] 0 := by
  have pairs : boundPairs (symbolsOf source forms) =
      (referencesOf source forms).flatMap fun each => [.symbol each.name, each.extract] :=
    List.flatMap_map ..
  have empty : (symbolsOf source forms).isEmpty = (referencesOf source forms).isEmpty :=
    List.isEmpty_map
  unfold synthesize treeOf boundTree bindingForm
  rw [pairs, empty]
  rfl

/-- The form of an expression whose body, with symbols bound around it, has been told
apart from a number on. -/
def toldForm (next : Nat) (told : Value × Nat) : Value :=
  .list [.symbol "fn", .vector (parameters.map .symbol) next, told.1] told.2

theorem tellApart_synthesize (source : ExpressionSource) (forms : List Value) (next : Nat) :
    (synthesize forms (referencesOf source forms)).tellApart next =
      (toldForm next ((treeOf source forms).tellApart (next + 1)),
        ((treeOf source forms).tellApart (next + 1)).2 + 1) := by
  rw [synthesize_eq]
  rfl

/-- The heap in which the form of a source becomes a function. -/
def rootedHeap (source : ExpressionSource) (forms : List Value) (heap : Heap) : Heap :=
  ((openRoot heap.evaluators.size source.lineage).perform (toldHeap source forms heap)).2

section Rooted

variable (source : ExpressionSource) (forms : List Value) (heap : Heap)

theorem perform_openRoot :
    (openRoot heap.evaluators.size source.lineage).perform (toldHeap source forms heap) =
      (.ok ⟨heap.evaluators.size, heap.scopes.size, 0⟩, rootedHeap source forms heap) := by
  unfold rootedHeap openRoot rootVars
  cases source.lineage <;> rfl

theorem rootedHeap_views : (rootedHeap source forms heap).views = heap.views := by
  unfold rootedHeap openRoot rootVars
  cases source.lineage <;> rfl

theorem rootedHeap_losses : (rootedHeap source forms heap).losses = heap.losses := by
  unfold rootedHeap openRoot rootVars
  cases source.lineage <;> rfl

theorem rootedHeap_stores : (rootedHeap source forms heap).stores = heap.stores := by
  unfold rootedHeap openRoot rootVars
  cases source.lineage <;> rfl

theorem rootedHeap_evaluators :
    (rootedHeap source forms heap).evaluators = heap.evaluators.push ⟨source.config, 0⟩ := by
  unfold rootedHeap openRoot rootVars
  cases source.lineage <;> rfl

theorem rootedHeap_scopes :
    (rootedHeap source forms heap).scopes =
      heap.scopes.push ⟨.table heap.tables.size, []⟩ := by
  unfold rootedHeap openRoot rootVars
  cases source.lineage <;> rfl

end Rooted

/-- The function that the form of a source becomes. -/
def functionOf (source : ExpressionSource) (forms : List Value) (heap : Heap) : Value :=
  let rooted := rootedHeap source forms heap
  .closure rooted.births SpecialForm.unnamed parameters none
    [rooted.current ((treeOf source forms).tellApart (heap.births + 1)).1] heap.scopes.size
    heap.evaluators.size

/-- The heap in which a source has become a function. -/
def builtHeap (source : ExpressionSource) (forms : List Value) (heap : Heap) : Heap :=
  { rootedHeap source forms heap with births := (rootedHeap source forms heap).births + 1 }

theorem perform_build_eq
    {source : ExpressionSource} {forms : List Value} {heap : Heap}
    (shallow : 0 ≤ source.config.maxDepth)
    (unlost : ∀ birth, heap.births ≤ birth → heap.left? birth = none) :
    (build source forms).perform heap =
      (.ok (((synthesize forms (referencesOf source forms)).tellApart heap.births).1,
        functionOf source forms heap), builtHeap source forms heap) := by
  have rootedUnlost (birth : Nat) (fresh : heap.births ≤ birth) :
      (rootedHeap source forms heap).left? birth = none := by
    rw [Heap.left?, rootedHeap_losses]
    exact unlost birth fresh
  have maxDepth : (rootedHeap source forms heap).maxDepth heap.evaluators.size =
      source.config.maxDepth := by
    simp only [Heap.maxDepth, Heap.config, rootedHeap_evaluators, Array.getElem?_push_size]
  have later := Value.tellApart_le (heap.births + 1) (treeOf source forms)
  have isForm : (rootedHeap source forms heap).current
      (toldForm heap.births ((treeOf source forms).tellApart (heap.births + 1))) =
        .list [.symbol "fn", .vector (parameters.map .symbol) heap.births,
          (rootedHeap source forms heap).current
            ((treeOf source forms).tellApart (heap.births + 1)).1]
          ((treeOf source forms).tellApart (heap.births + 1)).2 := by
    rw [toldForm, Heap.current_list (rootedUnlost _ (Nat.le_trans (Nat.le_succ _) later)),
      List.map_cons, List.map_cons, List.map_cons,
      Heap.current_vector (rootedUnlost heap.births (Nat.le_refl _))]
    simp [parameters]
  have made := perform_function heap.evaluators.size heap.scopes.size 0 isForm rfl
  rw [maxDepth, if_neg (Int.not_lt.mpr shallow)] at made
  rw [perform_build, Action.perform_bind_ok (perform_openRoot source forms heap),
    tellApart_synthesize]
  exact Action.perform_bind_ok made

/-- The expression that a source with some forms is compiled to. -/
def compiledExpression (source : ExpressionSource) (forms : List Value) (globals : Nat)
    (heap : Heap) : Expression :=
  ofParts source forms globals
    ((synthesize forms (referencesOf source forms)).tellApart heap.births).1
    (functionOf source forms heap) heap.stores.size

/-- The heap in which a source has been compiled. -/
def compiledHeap (source : ExpressionSource) (forms : List Value) (heap : Heap) : Heap :=
  ((builtHeap source forms heap).openStore (source.label ++ " locals") []).2

theorem compile_eq
    {source : ExpressionSource} {forms : List Value} {heap : Heap} (globals : Nat)
    (shallow : 0 ≤ source.config.maxDepth)
    (unlost : ∀ birth, heap.births ≤ birth → heap.left? birth = none)
    (formed : formsOf heap source.text.toList source.label = .ok forms) :
    ((compile source globals).run heap).1.outcome =
        .ok (compiledExpression source forms globals heap) ∧
      ((compile source globals).run heap).2 = compiledHeap source forms heap := by
  have compiled := compile_of_ok globals formed (perform_build_eq shallow unlost)
  have stores : (builtHeap source forms heap).stores = heap.stores :=
    rootedHeap_stores source forms heap
  rw [stores] at compiled
  exact compiled

theorem compiledHeap_left
    (source : ExpressionSource) (forms : List Value) (heap : Heap) (birth : Nat) :
    (compiledHeap source forms heap).left? birth = heap.left? birth :=
  congrArg (Entries.find? (· == ·) birth) (rootedHeap_losses source forms heap)

theorem compiledHeap_scope (source : ExpressionSource) (forms : List Value) (heap : Heap) :
    (compiledHeap source forms heap).scopes[heap.scopes.size]? =
      some ⟨.table heap.tables.size, []⟩ := by
  change (rootedHeap source forms heap).scopes[heap.scopes.size]? = _
  rw [rootedHeap_scopes, Array.getElem?_push_size]

theorem compiledHeap_evaluator (source : ExpressionSource) (forms : List Value) (heap : Heap) :
    (compiledHeap source forms heap).evaluators[heap.evaluators.size]? =
      some ⟨source.config, 0⟩ := by
  change (rootedHeap source forms heap).evaluators[heap.evaluators.size]? = _
  rw [rootedHeap_evaluators, Array.getElem?_push_size]

theorem compiledHeap_maxDepth (source : ExpressionSource) (forms : List Value) (heap : Heap) :
    (compiledHeap source forms heap).maxDepth heap.evaluators.size =
      source.config.maxDepth := by
  rw [Heap.maxDepth, Heap.config, compiledHeap_evaluator]

theorem compiledHeap_hostDepth (source : ExpressionSource) (forms : List Value) (heap : Heap) :
    (compiledHeap source forms heap).hostDepth heap.evaluators.size = 0 := by
  rw [Heap.hostDepth, compiledHeap_evaluator]

/-- What compiles has forms that are fit. -/
theorem formsOf_of_compile
    {source : ExpressionSource} {globals : Nat} {heap : Heap} {expression : Expression}
    (compiled : ((compile source globals).run heap).1.outcome = .ok expression) :
    ∃ forms, formsOf heap source.text.toList source.label = .ok forms := by
  cases formed : formsOf heap source.text.toList source.label with
  | ok forms => exact ⟨forms, rfl⟩
  | error report =>
      rw [(compile_of_unfit globals formed).1] at compiled
      cases compiled

/-! ## Calling -/

/-- The variables in which an expression finds what it is called with. -/
def parameterVars (expression : Expression) (arguments : Arguments) : ValueEntries :=
  [(.str Reference.eventSymbol, arguments.event),
    (.str "locals", .store (arguments.locals.getD expression.locals)),
    (.str "globals", .store (arguments.globals.getD expression.globals))]

/-- Evaluate a body in a scope for what an expression is called with and, if the expression
has symbols, in one inside it where they have the given values. -/
def evaluateBody (expression : Expression) (arguments : Arguments)
    (symbols : List (String × Value)) (body : Value) : Action Value := do
  match expression.function with
  | .closure _ _ _ _ _ root evaluator =>
      let outer ← Action.childScope root (parameterVars expression arguments)
      if symbols.isEmpty then
        Eval.solve (Eval.frameLimit - 2) (.evaluate evaluator outer body 1)
      else
        let vars := Entries.putAll Value.sameKey (symbols.map fun each => (.str each.1, each.2)) []
        let inner ← Action.childScope outer vars
        Eval.solve (Eval.frameLimit - 3) (.evaluate evaluator inner body 2)
  | _ => Action.fail .wrongType

theorem perform_evaluateBody
    {expression : Expression} {id root owner table : Nat} {bound : List Value}
    {outer : List Nat} {heap : Heap}
    (isFunction : expression.function =
      .closure id SpecialForm.unnamed parameters none bound root owner)
    (isScope : heap.scopes[root]? = some ⟨.table table, outer⟩) (arguments : Arguments)
    (symbols : List (String × Value)) (body : Value) :
    (evaluateBody expression arguments symbols body).perform heap =
      (if symbols.isEmpty then
        Eval.solve (Eval.frameLimit - 2) (.evaluate owner heap.scopes.size body 1)
      else
        Action.childScope heap.scopes.size (Entries.putAll Value.sameKey
          (symbols.map fun each => (.str each.1, each.2)) []) >>= fun inner =>
            Eval.solve (Eval.frameLimit - 3) (.evaluate owner inner body 2)).perform
        (heap.opened (parameterVars expression arguments) (root :: outer)) := by
  unfold evaluateBody
  rw [isFunction]
  exact Action.perform_bind_ok (Heap.perform_childScope isScope _)

/-- The piece of work inside of a call that runs the body of the function. -/
def enterTask (expression : Expression) (arguments : Arguments) (depth : Int) : Task :=
  .enter expression.function
    [arguments.event, .store (arguments.locals.getD expression.locals),
      .store (arguments.globals.getD expression.globals)] depth

open Eval in
/-- A call opens a scope for what the expression is called with and evaluates the body of
the function in it. -/
theorem perform_callTask
    {expression : Expression} {id root owner : Nat} {bound : Value}
    (isFunction : expression.function =
      .closure id SpecialForm.unnamed parameters none [bound] root owner)
    (arguments : Arguments) (watch : Watch) (alarm : Fault) (frames : Nat) {heap : Heap}
    (quiet : watch [expression.callTask arguments] heap = false)
    (quietInside : watch [expression.enterTask arguments (heap.hostDepth owner),
      expression.callTask arguments] heap = false) :
    (watched watch alarm (frames + 2) [] (expression.callTask arguments)).perform heap =
      (Action.childScope root (parameterVars expression arguments) >>= fun scope =>
        watched watch alarm frames
          [expression.enterTask arguments (heap.hostDepth owner),
            expression.callTask arguments]
          (.evaluate owner scope bound (heap.hostDepth owner + 1))).perform heap := by
  rw [perform_watched_succ, quiet, if_neg Bool.false_ne_true]
  have called : (step (watched watch alarm (frames + 1) [expression.callTask arguments])
      (expression.callTask arguments)).perform heap =
        (watched watch alarm (frames + 1) [expression.callTask arguments]
          (expression.enterTask arguments (heap.hostDepth owner))).perform heap := by
    rw [callTask, enterTask, isFunction]
    rfl
  rw [called, perform_watched_succ, quietInside, if_neg Bool.false_ne_true]
  generalize watched watch alarm frames _ = worker
  rw [enterTask, isFunction]
  change (Action.childScope root (parameterVars expression arguments) >>= fun scope =>
    body worker ⟨owner, scope, heap.hostDepth owner + 1⟩ [bound]).perform heap = _
  simp only [body, bodyFrom, Eval.form, bind_pure]

open Eval in
theorem perform_call
    {expression : Expression} {id root owner : Nat} {bound : Value}
    (isFunction : expression.function =
      .closure id SpecialForm.unnamed parameters none [bound] root owner)
    (arguments : Arguments) (heap : Heap) :
    (expression.run arguments).run heap =
      (Action.childScope root (parameterVars expression arguments) >>= fun scope =>
        solve (frameLimit - 2)
          (.evaluate owner scope bound (heap.hostDepth owner + 1))).perform heap := by
  have unwatched := @perform_callTask _ _ _ _ _ isFunction arguments .never (.unbound "")
    (frameLimit - 2) heap rfl rfl
  simp only [watched_never] at unwatched
  exact unwatched

open Eval in
/-- Evaluating a body with symbols bound around it evaluates a special form. -/
theorem perform_bindingForm
    {watch : Watch} (alarm : Fault) (frames : Nat) {owner scope vector birth : Nat}
    {around : List Task} {symbols : List (String × Value)} {body : Value} {depth : Int}
    {heap : Heap}
    (quiet : watch (.evaluate owner scope (bindingForm symbols body vector birth) depth ::
      around) heap = false)
    (shallow : ¬ heap.maxDepth owner < depth)
    (vectorUnlost : heap.left? vector = none) (unlost : heap.left? birth = none) :
    (watched watch alarm (frames + 1) around
      (.evaluate owner scope (bindingForm symbols body vector birth) depth)).perform heap =
        (special (watched watch alarm frames
            (.evaluate owner scope (bindingForm symbols body vector birth) depth :: around))
          ⟨owner, scope, depth + 1⟩ birth
          (.letIn (symbols.map fun each => (each.1, heap.current each.2))
            [heap.current body])).perform heap := by
  rw [perform_watched_succ, quiet, if_neg Bool.false_ne_true]
  rw [perform_evaluate_shallow _ shallow, current_bindingForm vectorUnlost unlost]
  have parts := asLet_boundPairs (symbols.map fun each => (each.1, heap.current each.2))
    (heap.current body) vector
  simp only [bindingForm, formAt, symbolCombination, SpecialForm.ofForm?, parts]
  rfl

/-! ## Calls of compiled expressions -/

/-- A body that has just been told apart has lost nothing. -/
theorem current_bodyTree
    {heap : Heap} {next : Nat} (unlost : ∀ birth, next ≤ birth → heap.left? birth = none)
    {forms : List Value} (areTrees : Value.AllTrees forms) :
    heap.current ((bodyTree forms).tellApart next).1 = ((bodyTree forms).tellApart next).1 :=
  Value.current_tellApart next unlost (bodyTree forms) ⟨rfl, trivial, areTrees⟩

section Compiled

variable (source : ExpressionSource) (forms : List Value) (heap : Heap)

/-- The symbols of a source when they have been told apart. -/
def toldSymbols : List (String × Value) × Nat :=
  tellSymbolsApart (heap.births + 1) (symbolsOf source forms)

/-- The number from which the body of a source with symbols is told apart. -/
def bodyBirth : Nat := (toldSymbols source forms heap).2 + 1

/-- The number of the list that binds the symbols of a source. -/
def listBirth : Nat := ((bodyTree forms).tellApart (bodyBirth source forms heap)).2

theorem lt_bodyBirth : heap.births + 1 < bodyBirth source forms heap :=
  Nat.lt_succ_of_le (tellSymbolsApart_le _ _)

theorem lt_listBirth : heap.births + 1 < listBirth source forms heap :=
  Nat.lt_of_lt_of_le (lt_bodyBirth source forms heap) (Value.tellApart_le _ _)

/-- The symbols of a compiled expression with the trees that are evaluated for them in a
call. -/
def calledSymbols (globals : Nat) (arguments : Arguments) : List (String × Value) :=
  let expression := compiledExpression source forms globals heap
  let opened := (compiledHeap source forms heap).opened (parameterVars expression arguments)
    [heap.scopes.size]
  ((toldSymbols source forms heap).1.map fun each =>
    (each.1, (rootedHeap source forms heap).current each.2)).map fun each =>
      (each.1, opened.current each.2)

end Compiled

variable {source : ExpressionSource} {forms : List Value} {heap : Heap}

theorem treeOf_of_no_symbols (none : symbolsOf source forms = []) :
    treeOf source forms = bodyTree forms := by
  rw [treeOf, none]
  rfl

theorem tellApart_treeOf (some : symbolsOf source forms ≠ []) :
    (treeOf source forms).tellApart (heap.births + 1) =
      (bindingForm (toldSymbols source forms heap).1
        ((bodyTree forms).tellApart (bodyBirth source forms heap)).1
        (toldSymbols source forms heap).2 (listBirth source forms heap),
        listBirth source forms heap + 1) := by
  have isBound : treeOf source forms =
      bindingForm (symbolsOf source forms) (bodyTree forms) 0 0 := by
    rw [treeOf, boundTree, if_neg (by simpa using some)]
  rw [isBound, tellApart_bindingForm]
  rfl

theorem toldHeap_births :
    (toldHeap source forms heap).births =
      ((treeOf source forms).tellApart (heap.births + 1)).2 + 1 := by
  change ((synthesize forms (referencesOf source forms)).tellApart heap.births).2 = _
  rw [tellApart_synthesize]

/-- A call of an expression without symbols evaluates its body. -/
theorem run_of_no_symbols
    (globals : Nat) (unlost : ∀ birth, heap.births ≤ birth → heap.left? birth = none)
    (areTrees : Value.AllTrees forms) (none : symbolsOf source forms = [])
    (arguments : Arguments) :
    ((compiledExpression source forms globals heap).run arguments).run
        (compiledHeap source forms heap) =
      (Eval.solve (Eval.frameLimit - 2)
        (.evaluate heap.evaluators.size (compiledHeap source forms heap).scopes.size
          ((bodyTree forms).tellApart (heap.births + 1)).1 1)).perform
        ((compiledHeap source forms heap).opened
          (parameterVars (compiledExpression source forms globals heap) arguments)
          [heap.scopes.size]) := by
  have rootedUnlost (birth : Nat) (above : heap.births + 1 ≤ birth) :
      (rootedHeap source forms heap).left? birth = .none := by
    rw [Heap.left?, rootedHeap_losses]
    exact unlost birth (Nat.le_of_succ_le above)
  have isFunction : (compiledExpression source forms globals heap).function =
      functionOf source forms heap := rfl
  rw [perform_call isFunction arguments, compiledHeap_hostDepth,
    Action.perform_bind_ok (Heap.perform_childScope (compiledHeap_scope source forms heap) _),
    treeOf_of_no_symbols none, current_bodyTree rootedUnlost areTrees]
  rfl

/-- The piece of work inside of a call that binds symbols around the body. -/
def bindingTask (source : ExpressionSource) (forms : List Value) (heap : Heap) : Task :=
  .evaluate heap.evaluators.size (compiledHeap source forms heap).scopes.size
    (bindingForm
      ((toldSymbols source forms heap).1.map fun each =>
        (each.1, (rootedHeap source forms heap).current each.2))
      ((bodyTree forms).tellApart (bodyBirth source forms heap)).1
      (toldSymbols source forms heap).2 (listBirth source forms heap)) 1

/-- A call of an expression with symbols evaluates their trees and then its body. -/
theorem perform_call_of_symbols
    (globals : Nat) (deep : 1 ≤ source.config.maxDepth)
    (unlost : ∀ birth, heap.births ≤ birth → heap.left? birth = none)
    (areTrees : Value.AllTrees forms) (some : symbolsOf source forms ≠ [])
    (arguments : Arguments) (watch : Watch) (alarm : Fault) (frames : Nat)
    (calm : ∀ holder,
      watch [(compiledExpression source forms globals heap).callTask arguments] holder = false)
    (calmInside : ∀ holder,
      watch [(compiledExpression source forms globals heap).enterTask arguments 0,
        (compiledExpression source forms globals heap).callTask arguments] holder = false)
    (calmBinding : ∀ holder,
      watch [bindingTask source forms heap,
        (compiledExpression source forms globals heap).enterTask arguments 0,
        (compiledExpression source forms globals heap).callTask arguments] holder = false) :
    (Eval.watched watch alarm (frames + 3) []
        ((compiledExpression source forms globals heap).callTask arguments)).perform
          (compiledHeap source forms heap) =
      (Eval.special
        (Eval.watched watch alarm frames [bindingTask source forms heap,
          (compiledExpression source forms globals heap).enterTask arguments 0,
          (compiledExpression source forms globals heap).callTask arguments])
        ⟨heap.evaluators.size, (compiledHeap source forms heap).scopes.size, 2⟩
        (listBirth source forms heap)
        (.letIn (calledSymbols source forms heap globals arguments)
          [((bodyTree forms).tellApart (bodyBirth source forms heap)).1])).perform
        ((compiledHeap source forms heap).opened
          (parameterVars (compiledExpression source forms globals heap) arguments)
          [heap.scopes.size]) := by
  have rootedUnlost (birth : Nat) (above : heap.births < birth) :
      (rootedHeap source forms heap).left? birth = .none := by
    rw [Heap.left?, rootedHeap_losses]
    exact unlost birth (by omega)
  let opened := (compiledHeap source forms heap).opened
    (parameterVars (compiledExpression source forms globals heap) arguments) [heap.scopes.size]
  have openedUnlost (birth : Nat) (above : heap.births < birth) :
      opened.left? birth = .none := by
    refine (compiledHeap_left source forms heap birth).trans ?_
    exact unlost birth (by omega)
  have shallow : ¬ opened.maxDepth heap.evaluators.size < 0 + 1 := by
    have limit := compiledHeap_maxDepth source forms heap
    change opened.maxDepth heap.evaluators.size = _ at limit
    omega
  have bodyLasts {holder : Heap}
      (lasting : ∀ birth, heap.births < birth → holder.left? birth = .none) :
      holder.current ((bodyTree forms).tellApart (bodyBirth source forms heap)).1 =
        ((bodyTree forms).tellApart (bodyBirth source forms heap)).1 :=
    current_bodyTree (fun birth above => lasting birth
      (Nat.lt_of_lt_of_le (Nat.lt_of_succ_lt (lt_bodyBirth source forms heap)) above)) areTrees
  have aboveVector : heap.births < (toldSymbols source forms heap).2 := tellSymbolsApart_le _ _
  have aboveList : heap.births < listBirth source forms heap :=
    Nat.lt_of_succ_lt (lt_listBirth source forms heap)
  have isBound : (compiledExpression source forms globals heap).function =
      .closure _ SpecialForm.unnamed parameters none [_] heap.scopes.size
        heap.evaluators.size := rfl
  rw [tellApart_treeOf some,
    current_bindingForm (rootedUnlost _ aboveVector) (rootedUnlost _ aboveList),
    bodyLasts rootedUnlost] at isBound
  have called := perform_callTask isBound arguments watch alarm (frames + 1)
    (calm (compiledHeap source forms heap))
  rw [compiledHeap_hostDepth] at called
  have entered := perform_bindingForm alarm frames (calmBinding opened) shallow
    (openedUnlost _ aboveVector) (openedUnlost _ aboveList)
  rw [bodyLasts openedUnlost] at entered
  rw [called (calmInside _),
    Action.perform_bind_ok (Heap.perform_childScope (compiledHeap_scope source forms heap) _)]
  exact entered

theorem run_of_symbols
    (globals : Nat) (deep : 1 ≤ source.config.maxDepth)
    (unlost : ∀ birth, heap.births ≤ birth → heap.left? birth = none)
    (areTrees : Value.AllTrees forms) (some : symbolsOf source forms ≠ [])
    (arguments : Arguments) :
    ((compiledExpression source forms globals heap).run arguments).run
        (compiledHeap source forms heap) =
      (Eval.special (Eval.solve (Eval.frameLimit - 3))
        ⟨heap.evaluators.size, (compiledHeap source forms heap).scopes.size, 2⟩
        (listBirth source forms heap)
        (.letIn (calledSymbols source forms heap globals arguments)
          [((bodyTree forms).tellApart (bodyBirth source forms heap)).1])).perform
        ((compiledHeap source forms heap).opened
          (parameterVars (compiledExpression source forms globals heap) arguments)
          [heap.scopes.size]) := by
  have unwatched := perform_call_of_symbols globals deep unlost areTrees some arguments .never
    (.unbound "") (Eval.frameLimit - 3) (fun _ => rfl) (fun _ => rfl) fun _ => rfl
  simp only [Eval.watched_never] at unwatched
  exact unwatched

end Expression

end CueScript
