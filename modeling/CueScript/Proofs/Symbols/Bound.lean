import CueScript.Proofs.Keys
import CueScript.Proofs.Symbols.Body

/-!
# What bound names stand for

A binding form opens a scope, sets its variables, and evaluates its body there.  Names reach
the scope by different ways: one after the other in a `let`, at once with the tested value,
or together with the rest parameter and the closure's own name in a call.  At the start of
the body each of them stands for what was bound to it last.

Three things stand between a name and its value.  Keywords and constants are never looked
up; a closure's own name is set after its parameters; and a binding of a `let` may itself
set variables of the scope that is being filled, if it gets hold of that scope.
-/

namespace CueScript

namespace Heap

/-- The value of a variable in a scope itself. -/
def ownValue? (heap : Heap) (scope : Nat) (name : String) : Option Value :=
  match heap.scopes[scope]? with
  | some ⟨.table id, _⟩ => Entries.find? Value.sameKey (.str name) (heap.table id)
  | _ => none

/-- Whether the variables of a scope are in a table. -/
def HasTable (heap : Heap) (scope : Nat) : Prop :=
  ∃ table outer, heap.scopes[scope]? = some ⟨.table table, outer⟩ ∧ table < heap.tables.size

/-- Whether a name stands for a value: as a symbol it is evaluated to that value, and
nothing changes, unless the limit of depth has been passed. -/
def Stands (heap : Heap) (site : Site) (name : String) (value : Value) : Prop :=
  ∀ frames, ¬ heap.maxDepth site.evaluator < site.depth →
    (Eval.solve (frames + 1)
      (.evaluate site.evaluator site.scope (.symbol name) site.depth)).perform heap =
        (.ok value, heap)

theorem ownValue_eq
    {heap : Heap} {scope id : Nat} {outer : List Nat}
    (isScope : heap.scopes[scope]? = some ⟨.table id, outer⟩) (name : String) :
    heap.ownValue? scope name = Entries.find? Value.sameKey (.str name) (heap.table id) := by
  rw [ownValue?, isScope]

theorem lookup_of_ownValue
    {heap : Heap} {scope : Nat} {name : String} {value : Value}
    (own : heap.ownValue? scope name = some value) :
    heap.lookup? scope (.str name) = .ok (some value) := by
  unfold ownValue? at own
  split at own
  · rename_i table outer isScope
    have found : heap.valueIn? (.table table) (.str name) = .ok (some value) :=
      congrArg Except.ok own
    rw [lookup?, isScope]
    simp only [firstValueIn?, isScope, found]
    rfl
  · cases own

theorem stands_of_ownValue
    {heap : Heap} {site : Site} {name : String} {value : Value}
    (lookedUp : Eval.standsForItself name = false)
    (own : heap.ownValue? site.scope name = some value) :
    heap.Stands site name value := by
  intro frames shallow
  rw [Eval.solve, Eval.perform_evaluate_shallow _ shallow, current_symbol]
  change (Eval.symbol site.scope name).perform heap = _
  rw [Eval.symbol_eq_lookup lookedUp, Eval.perform_lookup (lookup_of_ownValue own)]

theorem perform_childScope_eq (heap : Heap) (parent : Nat) (vars : ValueEntries) :
    (Action.childScope parent vars).perform heap =
      (if (heap.openTable vars).2.canOpenInside parent then
        (Action.change fun later => later.openScope (.table heap.tables.size) (some parent) :
          Action Nat)
      else
        Action.fail .noAttribute).perform (heap.openTable vars).2 := rfl

/-- A scope can be opened inside everything that is a scope. -/
theorem fault_of_childScope
    {heap after : Heap} {parent : Nat} {vars : ValueEntries} {fault : Fault}
    (ran : (Action.childScope parent vars).perform heap = (.error fault, after)) :
    fault = .failed .noAttribute := by
  rw [perform_childScope_eq] at ran
  split at ran
  · cases ran
  · cases ran
    rfl

/-- A new scope has the variables that it was opened with. -/
theorem ownValue_of_childScope
    {heap opened : Heap} {parent inner : Nat} {vars : ValueEntries}
    (ran : (Action.childScope parent vars).perform heap = (.ok inner, opened)) :
    opened.HasTable inner ∧
      ∀ name, opened.ownValue? inner name = Entries.find? Value.sameKey (.str name) vars := by
  rw [perform_childScope_eq] at ran
  split at ran
  · obtain ⟨sameInner, sameOpened⟩ := Prod.mk.inj ran
    obtain rfl : heap.scopes.size = inner := Except.ok.inj sameInner
    obtain ⟨outer, isScope⟩ : ∃ outer,
        opened.scopes[heap.scopes.size]? = some ⟨.table heap.tables.size, outer⟩ := by
      rw [← sameOpened]
      exact ⟨_, Array.getElem?_push_size⟩
    have held : opened.tables = heap.tables.push vars := by
      rw [← sameOpened]
      rfl
    constructor
    · refine ⟨_, outer, isScope, ?_⟩
      rw [held, Array.size_push]
      omega
    · intro name
      rw [ownValue_eq isScope, table, held, Array.getElem?_push_size, Option.getD_some]
  · cases ran

/-- A variable of a scope is set, and its other variables are as they were. -/
theorem ownValue_of_define
    {heap after : Heap} {scope : Nat} {name : String} {value : Value}
    (hasTable : heap.HasTable scope)
    (ran : (Action.define scope (.str name) value).perform heap = (.ok ⟨⟩, after)) :
    after.HasTable scope ∧
      ∀ other, after.ownValue? scope other =
        if name = other then some value else heap.ownValue? scope other := by
  obtain ⟨table, outer, isScope, below⟩ := hasTable
  rw [perform_define_table isScope] at ran
  let revised := Entries.put Value.sameKey (.str name) value (heap.table table)
  obtain rfl : heap.setTable table revised = after := (Prod.mk.inj ran).2
  have stillScope : (heap.setTable table revised).scopes[scope]? = some ⟨.table table, outer⟩ :=
    isScope
  refine ⟨⟨table, outer, stillScope, ?_⟩, fun other => ?_⟩
  · rw [setTable, Array.size_modify]
    exact below
  · rw [ownValue_eq stillScope, table_setTable below, ValueEntries.find?_put_str,
      ownValue_eq isScope]

end Heap

namespace Eval

/-- What happened when the value of a binding was evaluated. -/
structure BindingMoment where
  name : String
  before : Heap
  outcome : Except Fault Value
  after : Heap

namespace BindingMoment

/-- The name with the value that is bound to it. -/
def bound? (moment : BindingMoment) : Option (String × Value) :=
  match moment.outcome with
  | .ok value => some (moment.name, value)
  | .error _ => none

/-- Whether a variable that a scope has kept its value meanwhile. -/
def Leaves (moment : BindingMoment) (scope : Nat) (name : String) : Prop :=
  ∀ value, moment.before.ownValue? scope name = some value →
    moment.after.ownValue? scope name = some value

end BindingMoment

/-- The course of evaluating bindings, each seeing those before it. -/
def bindingCourse (worker : Worker) (site : Site) :
    List (String × Value) → Heap → List BindingMoment
  | [], _ => []
  | (name, item) :: rest, heap =>
      let (outcome, after) := (form worker site item).perform heap
      let later :=
        match outcome with
        | .error _ => []
        | .ok value =>
            match (Action.define site.scope (.str name) value).perform after with
            | (.ok _, defined) => bindingCourse worker site rest defined
            | (.error _, _) => []
      ⟨name, heap, outcome, after⟩ :: later

/-- What bindings bind, in their order. -/
def boundValues (course : List BindingMoment) : List (String × Value) :=
  course.filterMap BindingMoment.bound?

/-- A run leaves a scope its table. -/
theorem hasTable_of_solve
    {heap : Heap} {scope : Nat} (hasTable : heap.HasTable scope) (frames : Nat) (task : Task) :
    ((solve frames task).perform heap).2.HasTable scope := by
  have keeps : (solve frames task).Keeps .anything (Value.Within .anything) heap :=
    solve_keeps frames (Bounds.lists_anything 0) (fun _ => trivial) (fun _ => trivial) trivial
      (Bounds.heapWithin_anything heap) (Bounds.taskWithin_anything task)
  obtain ⟨table, outer, isScope, below⟩ := hasTable
  exact ⟨table, outer, keeps.becomes.extend.scopes _ _ isScope,
    Nat.lt_of_lt_of_le below keeps.becomes.extend.tableCount⟩

/-- Bindings leave each name the value bound to it last, as long as no value that is
evaluated on the way has changed it. -/
theorem ownValue_of_bindAll
    {frames : Nat} {site : Site} {bindings : List (String × Value)} {heap start : Heap}
    (hasTable : heap.HasTable site.scope)
    (ran : (bindAll (solve frames) site bindings).perform heap = (.ok ⟨⟩, start)) :
    (boundValues (bindingCourse (solve frames) site bindings heap)).map Prod.fst =
        bindings.map Prod.fst ∧
      ∀ name, (∀ moment ∈ bindingCourse (solve frames) site bindings heap,
          moment.Leaves site.scope name) →
        ∀ value, ((boundValues (bindingCourse (solve frames) site bindings heap)).reverse.lookup
            name).or (heap.ownValue? site.scope name) = some value →
          start.ownValue? site.scope name = some value := by
  induction bindings generalizing heap with
  | nil =>
      cases ran
      exact ⟨rfl, fun name _ value own => own⟩
  | cons binding rest inductionHypothesis =>
      obtain ⟨first, item⟩ := binding
      have hasTableAfter : ((form (solve frames) site item).perform heap).2.HasTable site.scope :=
        hasTable_of_solve hasTable frames _
      rcases evaluated : (form (solve frames) site item).perform heap with ⟨fault | result, after⟩
      · rw [bindAll, Action.perform_bind_error evaluated] at ran
        cases ran
      · rw [bindAll, Action.perform_bind_ok evaluated] at ran
        rw [evaluated] at hasTableAfter
        rcases defines : (Action.define site.scope (.str first) result).perform after with
          ⟨fault | _, defined⟩
        · rw [Action.perform_bind_error defines] at ran
          cases ran
        · rw [Action.perform_bind_ok defines] at ran
          obtain ⟨hasTableDefined, own⟩ := Heap.ownValue_of_define hasTableAfter defines
          obtain ⟨names, values⟩ := inductionHypothesis hasTableDefined ran
          have course : bindingCourse (solve frames) site ((first, item) :: rest) heap =
              ⟨first, heap, .ok result, after⟩ ::
                bindingCourse (solve frames) site rest defined := by
            rw [bindingCourse, evaluated]
            simp only [defines]
          rw [course]
          refine ⟨congrArg (List.cons first) names, ?_⟩
          intro name leaves value isValue
          refine values name (fun moment member => leaves moment (List.mem_cons_of_mem _ member))
            value ?_
          have here : BindingMoment.Leaves ⟨first, heap, .ok result, after⟩ site.scope name :=
            leaves _ List.mem_cons_self
          have reversed : (boundValues (⟨first, heap, .ok result, after⟩ ::
              bindingCourse (solve frames) site rest defined)).reverse =
                (boundValues (bindingCourse (solve frames) site rest defined)).reverse ++
                  [(first, result)] := List.reverse_cons
          rw [reversed, List.lookup_append, Option.or_assoc] at isValue
          rw [own name]
          cases later : (boundValues
              (bindingCourse (solve frames) site rest defined)).reverse.lookup name with
          | some found =>
              rw [later] at isValue
              exact isValue
          | none =>
              rw [later] at isValue
              by_cases same : first = name
              · rw [if_pos same]
                simpa [same] using isValue
              · have different : (name == first) = false := beq_eq_false_iff_ne.mpr (Ne.symm same)
                rw [if_neg same]
                exact here value (by simpa [List.lookup_cons, different] using isValue)

/-! ## Calls -/

/-- Apart from the closure's own name, the rest parameter comes before the parameters, and
the last of several parameters with one name counts. -/
theorem find?_callVars
    {own name : String} (notOwn : name ≠ own ∨ own = SpecialForm.unnamed) (closure : Value)
    (params : List String) (left : Option (String × Value)) (args : List Value) :
    Entries.find? Value.sameKey (.str name) (callVars closure own params left args) =
      match left with
      | none => (params.zip args).reverse.lookup name
      | some (restName, items) =>
          if restName = name then some items else (params.zip args).reverse.lookup name := by
  have positional : Entries.find? Value.sameKey (.str name)
      (Entries.putAll Value.sameKey ((params.map Value.str).zip args) []) =
        (params.zip args).reverse.lookup name := by
    have pairs : (params.map Value.str).zip args =
        (params.zip args).map fun pair => (.str pair.1, pair.2) := by
      rw [List.zip_map_left]
      rfl
    rw [pairs, ValueEntries.find?_putAll_str]
    exact Option.or_none
  have withRest : Entries.find? Value.sameKey (.str name)
      (match left with
      | none => Entries.putAll Value.sameKey ((params.map Value.str).zip args) []
      | some (restName, items) => Entries.put Value.sameKey (.str restName) items
          (Entries.putAll Value.sameKey ((params.map Value.str).zip args) [])) =
        match left with
        | none => (params.zip args).reverse.lookup name
        | some (restName, items) =>
            if restName = name then some items else (params.zip args).reverse.lookup name := by
    cases left with
    | none => exact positional
    | some rest => rw [ValueEntries.find?_put_str, positional]
  unfold callVars
  by_cases hasNoName : own = SpecialForm.unnamed
  · rw [if_pos hasNoName]
    exact withRest
  · have other : own ≠ name := fun same => notOwn.elim (· same.symm) hasNoName
    rw [if_neg hasNoName, ValueEntries.find?_put_str, if_neg other]
    exact withRest

theorem accepts_iff {params : List String} {rest : Option String} {count : Nat} :
    accepts params rest count = false ↔
      count < params.length ∨ rest = none ∧ params.length < count := by
  cases rest with
  | none =>
      simp only [accepts, Option.isSome_none, Bool.false_or, Bool.and_eq_false_iff,
        decide_eq_false_iff_not, beq_eq_false_iff_ne, true_and]
      omega
  | some name => simp [accepts]

theorem exists_of_mem_params
    {params : List String} {args : List Value} (enough : params.length ≤ args.length)
    {name : String} (member : name ∈ params) :
    ∃ value, (params.zip args).reverse.lookup name = some value := by
  rw [← Option.isSome_iff_exists, List.lookup_isSome_iff]
  have names : (params.zip args).map Prod.fst = params := List.map_fst_zip enough
  rw [← names] at member
  obtain ⟨pair, isPair, rfl⟩ := List.mem_map.mp member
  exact ⟨pair, List.mem_reverse.mpr isPair, beq_self_eq_true _⟩

/-- A call with a number of arguments that a closure does not take fails with that number,
and any other fails before the body only if the closure's scope is none. -/
theorem perform_invoke
    (worker : Worker) (heap : Heap) (id : Nat) (own : String) (params : List String)
    (rest : Option String) (forms : List Value) (scope evaluator : Nat) (args : List Value)
    (depth : Int) :
    let closure := Value.closure id own params rest forms scope evaluator
    (accepts params rest args.length = false →
      (invoke worker closure args depth).perform heap =
        (.error (.arity own (expectedText params rest) args.length), heap)) ∧
    (accepts params rest args.length = true →
      ((invoke worker closure args depth).perform heap).1 = .error (.failed .noAttribute) ∨
        ∃ left inner start,
          (invoke worker closure args depth).perform heap =
            (body worker ⟨evaluator, inner, depth + 1⟩ forms).perform start ∧
          left = rest.map (·, .list (args.drop params.length) heap.births) ∧
          ∀ name, start.ownValue? inner name =
            Entries.find? Value.sameKey (.str name) (callVars closure own params left args)) := by
  intro closure
  constructor
  · intro refused
    rw [invoke, refused]
    rfl
  · intro accepted
    have runs : invoke worker closure args depth = (do
        let vars := callVars closure own params (← restVar params rest args) args
        let inner ← Action.childScope scope vars
        body worker ⟨evaluator, inner, depth + 1⟩ forms) := by
      rw [invoke, if_pos accepted]
    obtain ⟨prepared, left⟩ : ∃ prepared, (restVar params rest args).perform heap =
        (.ok (rest.map (·, .list (args.drop params.length) heap.births)), prepared) := by
      cases rest with
      | none => exact ⟨heap, rfl⟩
      | some name => exact ⟨_, rfl⟩
    rw [runs, Action.perform_bind_ok left]
    rcases opens : (Action.childScope scope (callVars closure own params
      (rest.map (·, .list (args.drop params.length) heap.births)) args)).perform prepared with
        ⟨fault | inner, start⟩
    · refine .inl ?_
      rw [Action.perform_bind_error opens, Heap.fault_of_childScope opens]
    · refine .inr ⟨_, inner, start, ?_, rfl, (Heap.ownValue_of_childScope opens).2⟩
      rw [Action.perform_bind_ok opens]

/-! ## Binding forms -/

section Forms

variable {worker : Worker} {site : Site} {heap : Heap} {birth : Nat} {argForms : List Value}

/-- A list that is a special form of the right shape is evaluated one level deeper. -/
theorem formAt_of_ofForm
    {head : String} {parts : SpecialForm}
    (shape : SpecialForm.ofForm? head (.symbol head :: argForms) = some (.ok parts)) :
    formAt worker site (.list (.symbol head :: argForms) birth) =
      special worker site.inner birth parts := by
  rw [formAt, symbolCombination, shape]

/-- A `let` whose bindings all have values goes on with its body where each name stands for
the value bound to it last. -/
theorem perform_let
    {frames : Nat} {bindings : List (String × Value)} {forms : List Value} {inner : Nat}
    {opened start : Heap}
    (shape : SpecialForm.asLet (.symbol "let" :: argForms) = .ok (.letIn bindings forms))
    (opens : (Action.childScope site.scope []).perform heap = (.ok inner, opened))
    (binds : (bindAll (solve frames) (site.inner.within inner) bindings).perform opened =
      (.ok ⟨⟩, start)) :
    (formAt (solve frames) site (.list (.symbol "let" :: argForms) birth)).perform heap =
        (bodyOf (solve frames) (site.inner.within inner) birth forms).perform start ∧
      ∀ name ∈ bindings.map Prod.fst, standsForItself name = false →
        (∀ moment ∈ bindingCourse (solve frames) (site.inner.within inner) bindings opened,
          moment.Leaves inner name) →
        ∃ value, (boundValues (bindingCourse (solve frames) (site.inner.within inner) bindings
            opened)).reverse.lookup name = some value ∧
          start.Stands (site.inner.within inner) name value := by
  have isForm : SpecialForm.ofForm? "let" (.symbol "let" :: argForms) =
      some (.ok (.letIn bindings forms)) := congrArg some shape
  have hasTable : opened.HasTable (site.inner.within inner).scope :=
    (Heap.ownValue_of_childScope opens).1
  obtain ⟨names, values⟩ := ownValue_of_bindAll hasTable binds
  constructor
  · rw [formAt_of_ofForm isForm, special]
    exact (Action.perform_bind_ok opens).trans (Action.perform_bind_ok binds)
  · intro name member lookedUp leaves
    rw [← names] at member
    obtain ⟨pair, isPair, rfl⟩ := List.mem_map.mp member
    have isBound : ((boundValues (bindingCourse (solve frames) (site.inner.within inner) bindings
        opened)).reverse.lookup pair.1).isSome = true := by
      rw [List.lookup_isSome_iff]
      exact ⟨pair, List.mem_reverse.mpr isPair, beq_self_eq_true _⟩
    obtain ⟨value, isValue⟩ := Option.isSome_iff_exists.mp isBound
    refine ⟨value, isValue, Heap.stands_of_ownValue lookedUp ?_⟩
    exact values pair.1 leaves value (by rw [isValue, Option.some_or])

/-- Where the value of a test is bound, the name stands for it at the start of the body. -/
theorem stands_of_childScope
    (site : Site) {name : String} {value : Value} {inner : Nat} {start : Heap}
    (lookedUp : standsForItself name = false)
    (opens : (Action.childScope site.scope [(.str name, value)]).perform heap =
      (.ok inner, start)) :
    start.Stands (site.within inner) name value := by
  apply Heap.stands_of_ownValue lookedUp
  change start.ownValue? inner name = some value
  rw [(Heap.ownValue_of_childScope opens).2 name]
  simp [Entries.find?, Value.sameKey]

end Forms

/-- A scope without variables. -/
def rootHeap : Heap := Heap.empty.opened [] []

/-- The parts of `(let [a 1 a 2] a)` after its head. -/
def twiceBound : List Value :=
  [.vector [.symbol "a", .int 1, .symbol "a", .int 2] 0, .symbol "a"]

/-- The parts of `(fn [x & more] x)` after its head. -/
def withRest : List Value :=
  [.vector [.symbol "x", .symbol "&", .symbol "more"] 0, .symbol "x"]

/-- The closure that `withRest` makes where nothing has a number yet. -/
def restClosure : Value :=
  .closure rootHeap.births "fn" ["x"] (some "more") [.symbol "x"] 0 0

/-- `(let [nil 1] nil)`. -/
def constantBound : Value :=
  .list [.symbol "let", .vector [.symbol "nil", .int 1] 0, .symbol "nil"] 0

/-- `(let [a 1 b (.define (.env (fn [] 1)) "a" 2)] a)`. -/
def definedAnew : Value :=
  .list
    [.symbol "let",
      .vector
        [.symbol "a", .int 1, .symbol "b",
          .list
            [.symbol ".define",
              .list [.symbol ".env", .list [.symbol "fn", .vector [] 0, .int 1] 0] 0, .str "a",
              .int 2] 0] 0,
      .symbol "a"] 0

end Eval

end CueScript
