import CueScript.Proofs.Symbols.Bound

/-!
# Forms that bind

A run remembers what lists have lost.  So a `let` that has lost nothing by its end has lost
nothing before, and its evaluation is to bind its pairs in a scope of their own and to evaluate
the forms of its body there.
-/

namespace CueScript

namespace Eval

/-! ## What a run remembers -/

theorem solve_remembers (frames : Nat) (task : Task) (heap : Heap) :
    ((solve frames task).perform heap).2.Remembers heap :=
  (solve_keeps frames (Bounds.lists_anything 0) (fun _ => trivial) (fun _ => trivial) trivial
    (Bounds.heapWithin_anything heap)
    (Bounds.taskWithin_anything task)).becomes.extend.remembers

theorem define_remembers (scope : Nat) (key value : Value) (heap : Heap) :
    ((Action.define scope key value).perform heap).2.Remembers heap := by
  unfold Action.define Action.reading
  simp only [bind_assoc, Action.perform_get_bind]
  cases heap.defined scope key value with
  | error failure => exact .refl heap
  | ok revised => exact ⟨fun _ isLost => isLost, fun _ isView => isView⟩

theorem childScope_remembers (parent : Nat) (vars : ValueEntries) (heap : Heap) :
    ((Action.childScope parent vars).perform heap).2.Remembers heap := by
  rw [Heap.perform_childScope_eq]
  split <;> exact ⟨fun _ isLost => isLost, fun _ isView => isView⟩

theorem bindAll_remembers
    (frames : Nat) (site : Site) (pairs : List (String × Value)) (heap : Heap) :
    ((bindAll (solve frames) site pairs).perform heap).2.Remembers heap := by
  induction pairs generalizing heap with
  | nil => exact .refl heap
  | cons pair rest inductionHypothesis =>
      obtain ⟨name, item⟩ := pair
      have first : ((form (solve frames) site item).perform heap).2.Remembers heap :=
        solve_remembers frames _ heap
      rcases ran : (form (solve frames) site item).perform heap with ⟨fault | value, after⟩
      · rw [bindAll, Action.perform_bind_error ran]
        rw [ran] at first
        exact first
      · have second := define_remembers site.scope (.str name) value after
        rw [bindAll, Action.perform_bind_ok ran]
        rw [ran] at first
        rcases defines : (Action.define site.scope (.str name) value).perform after with
          ⟨fault | _, defined⟩
        · rw [Action.perform_bind_error defines]
          rw [defines] at second
          exact second.trans first
        · rw [Action.perform_bind_ok defines]
          rw [defines] at second
          exact (inductionHypothesis defined).trans (second.trans first)

/-- Bind names in a scope of their own and evaluate a body there. -/
def bindAround (worker : Worker) (site : Site) (pairs : List (String × Value))
    (forms : List Value) : Action Value := do
  let inner := site.within (← Action.childScope site.scope [])
  bindAll worker inner pairs
  bodyFrom worker inner .nil forms

/-- A form is evaluated as it is now, even if it was brought up to date earlier. -/
theorem solve_evaluate_current
    {heap later : Heap} (remembers : later.Remembers heap) (frames evaluator scope : Nat)
    (item : Value) (depth : Int) :
    (solve frames (.evaluate evaluator scope (heap.current item) depth)).perform later =
      (solve frames (.evaluate evaluator scope item depth)).perform later := by
  cases frames with
  | zero => rfl
  | succ frames => rw [solve, perform_evaluate, perform_evaluate, remembers.current]

theorem bodyFrom_current
    {heap later : Heap} (remembers : later.Remembers heap) (frames : Nat) (site : Site)
    (result : Value) (forms : List Value) :
    (bodyFrom (solve frames) site result (forms.map heap.current)).perform later =
      (bodyFrom (solve frames) site result forms).perform later := by
  induction forms generalizing result later with
  | nil => rfl
  | cons item rest inductionHypothesis =>
      have same : (form (solve frames) site (heap.current item)).perform later =
          (form (solve frames) site item).perform later :=
        solve_evaluate_current remembers frames site.evaluator site.scope item site.depth
      have further := solve_remembers frames
        (.evaluate site.evaluator site.scope item site.depth) later
      rw [List.map_cons, bodyFrom, bodyFrom, Action.perform_bind, Action.perform_bind, same]
      rcases ran : (form (solve frames) site item).perform later with ⟨fault | value, after⟩
      · rfl
      · rw [show solve frames _ = form (solve frames) site item from rfl, ran] at further
        exact inductionHypothesis (further.trans remembers) value

theorem bindAll_current
    {heap later : Heap} (remembers : later.Remembers heap) (frames : Nat) (site : Site)
    (pairs : List (String × Value)) :
    (bindAll (solve frames) site (pairs.map fun each => (each.1, heap.current each.2))).perform
        later =
      (bindAll (solve frames) site pairs).perform later := by
  induction pairs generalizing later with
  | nil => rfl
  | cons pair rest inductionHypothesis =>
      obtain ⟨name, item⟩ := pair
      have same : (form (solve frames) site (heap.current item)).perform later =
          (form (solve frames) site item).perform later :=
        solve_evaluate_current remembers frames site.evaluator site.scope item site.depth
      have further := solve_remembers frames
        (.evaluate site.evaluator site.scope item site.depth) later
      rw [List.map_cons, bindAll, bindAll, Action.perform_bind, Action.perform_bind, same]
      rcases ran : (form (solve frames) site item).perform later with ⟨fault | value, after⟩
      · rfl
      · rw [show solve frames _ = form (solve frames) site item from rfl, ran] at further
        have last := define_remembers site.scope (.str name) value after
        simp only
        rw [Action.perform_bind, Action.perform_bind]
        rcases defines : (Action.define site.scope (.str name) value).perform after with
          ⟨fault | _, defined⟩
        · rfl
        · rw [defines] at last
          exact inductionHypothesis (last.trans (further.trans remembers))

theorem bindAround_current
    (frames : Nat) (site : Site) (pairs : List (String × Value)) (forms : List Value)
    (heap : Heap) :
    (bindAround (solve frames) site (pairs.map fun each => (each.1, heap.current each.2))
        (forms.map heap.current)).perform heap =
      (bindAround (solve frames) site pairs forms).perform heap := by
  have openRemembers := childScope_remembers site.scope [] heap
  unfold bindAround
  rcases opens : (Action.childScope site.scope []).perform heap with ⟨fault | inner, opened⟩
  · rw [Action.perform_bind_error opens, Action.perform_bind_error opens]
  · rw [opens] at openRemembers
    rw [Action.perform_bind_ok opens, Action.perform_bind_ok opens]
    have same := bindAll_current openRemembers frames (site.within inner) pairs
    have bindRemembers := bindAll_remembers frames (site.within inner) pairs opened
    rw [Action.perform_bind, Action.perform_bind, same]
    rcases binds : (bindAll (solve frames) (site.within inner) pairs).perform opened with
      ⟨fault | _, start⟩
    · rfl
    · rw [binds] at bindRemembers
      exact bodyFrom_current (bindRemembers.trans openRemembers) frames (site.within inner) .nil
        forms

end Eval

/-! ## Forms that bind -/

/-- Whether a value is no list and no vector that has lost items. -/
def Heap.IsWhole (heap : Heap) : Value → Prop
  | .list _ birth => heap.left? birth = none
  | .vector _ birth => heap.left? birth = none
  | _ => True

theorem Heap.Remembers.isWhole
    {heap later : Heap} (remembers : later.Remembers heap) {value : Value}
    (whole : later.IsWhole value) :
    heap.IsWhole value := by
  have unlost (birth : Nat) (isNone : later.left? birth = none) : heap.left? birth = none := by
    cases isLost : heap.left? birth with
    | none => rfl
    | some items =>
        have stillLost := remembers.losses birth (by rw [isLost]; rfl)
        rw [isNone] at stillLost
        cases stillLost
  cases value with
  | list items birth => exact unlost birth whole
  | vector items birth => exact unlost birth whole
  | _ => exact trivial

theorem SpecialForm.bindingPairs_singleton (item : Value) : bindingPairs [item] = .ok [] := by
  cases item <;> rfl

theorem SpecialForm.bindingPairs_current
    (heap : Heap) {items : List Value} {pairs : List (String × Value)}
    (shape : bindingPairs items = .ok pairs) :
    bindingPairs (items.map heap.current) =
      .ok (pairs.map fun each => (each.1, heap.current each.2)) := by
  induction items using bindingPairs.induct generalizing pairs with
  | case1 name item rest inductionHypothesis =>
      rw [bindingPairs] at shape
      cases isRest : bindingPairs rest with
      | error fault =>
          rw [isRest] at shape
          cases shape
      | ok others =>
          rw [isRest] at shape
          cases shape
          rw [List.map_cons, List.map_cons, Heap.current_symbol, bindingPairs,
            inductionHypothesis isRest]
          rfl
  | case2 name item rest notSymbol =>
      rw [bindingPairs] at shape
      · cases shape
      · exact notSymbol
  | case3 items notPair notOther =>
      rcases items with _ | ⟨single, _ | ⟨second, others⟩⟩
      · cases shape
        rfl
      · rw [bindingPairs_singleton] at shape
        cases shape
        exact bindingPairs_singleton (heap.current single)
      · exact absurd rfl (notOther single second others)

/-- A `let` of the right shape. -/
structure LetForm where
  birth : Nat
  bindings : Value
  pairs : List (String × Value)
  forms : List Value
  shape : SpecialForm.asLet (.symbol "let" :: bindings :: forms) = .ok (.letIn pairs forms)

namespace LetForm

/-- It as a list. -/
def form (binding : LetForm) : Value :=
  .list (.symbol "let" :: binding.bindings :: binding.forms) binding.birth

/-- Whether neither it nor its vector has lost items. -/
def IsWhole (binding : LetForm) (heap : Heap) : Prop :=
  heap.IsWhole binding.form ∧ heap.IsWhole binding.bindings

theorem bindings_eq (binding : LetForm) :
    SpecialForm.bindings (.symbol "let" :: binding.bindings :: binding.forms) =
      .ok binding.pairs := by
  have shape := binding.shape
  unfold SpecialForm.asLet at shape
  cases isPairs : SpecialForm.bindings (.symbol "let" :: binding.bindings :: binding.forms) with
  | error fault =>
      rw [isPairs] at shape
      cases shape
  | ok pairs =>
      rw [isPairs] at shape
      cases shape
      rfl

/-- The vector of what has not lost items still binds the same names. -/
theorem bindings_current
    (binding : LetForm) {heap : Heap} (whole : heap.IsWhole binding.bindings)
    (forms : List Value) :
    SpecialForm.asLet (.symbol "let" :: heap.current binding.bindings :: forms) =
      .ok (.letIn (binding.pairs.map fun each => (each.1, heap.current each.2)) forms) := by
  have pairs := binding.bindings_eq
  unfold SpecialForm.bindings at pairs
  have current (items : List Value) (isSequence : binding.bindings.sequence? = some items) :
      (heap.current binding.bindings).sequence? = some (items.map heap.current) := by
    cases isVector : binding.bindings with
    | list held birth =>
        rw [isVector] at whole isSequence
        cases isSequence
        rw [Heap.current_list whole]
        rfl
    | vector held birth =>
        rw [isVector] at whole isSequence
        cases isSequence
        rw [Heap.current_vector whole]
        rfl
    | _ =>
        rw [isVector] at isSequence
        cases isSequence
  simp only at pairs
  split at pairs
  · rename_i items isSequence
    split at pairs
    · rename_i isEven
      have bound := SpecialForm.bindingPairs_current heap pairs
      unfold SpecialForm.asLet SpecialForm.bindings
      simp only [current items isSequence, List.length_map, if_pos isEven, bound]
      rfl
    · cases pairs
  · cases pairs

/-- What has not lost items is a `let` of the same shape now. -/
theorem current_form
    (binding : LetForm) {heap : Heap} (whole : binding.IsWhole heap) :
    heap.current binding.form =
      .list (.symbol "let" :: heap.current binding.bindings :: binding.forms.map heap.current)
        binding.birth := by
  rw [form, Heap.current_list whole.1, List.map_cons, List.map_cons, Heap.current_symbol]

/-- A `let` is evaluated to what its bindings and its body are. -/
theorem perform_step
    (binding : LetForm) {heap : Heap} (whole : binding.IsWhole heap) (worker : Worker)
    {evaluator : Nat} {depth : Int} (shallow : ¬ heap.maxDepth evaluator < depth) (scope : Nat) :
    (Eval.step worker (.evaluate evaluator scope binding.form depth)).perform heap =
      (Eval.special worker ⟨evaluator, scope, depth + 1⟩ binding.birth
        (.letIn (binding.pairs.map fun each => (each.1, heap.current each.2))
          (binding.forms.map heap.current))).perform heap := by
  have shape := binding.bindings_current whole.2 (binding.forms.map heap.current)
  have isForm : SpecialForm.ofForm? "let" (.symbol "let" :: heap.current binding.bindings ::
      binding.forms.map heap.current) = some (.ok (.letIn _ _)) := congrArg some shape
  rw [Eval.perform_evaluate_shallow worker shallow, binding.current_form whole,
    Eval.formAt_of_ofForm isForm]
  rfl

end LetForm

namespace Eval

/-- The body of a list that has lost nothing in the end is made of what it had at first. -/
theorem perform_bodyOf_whole
    {watch : Watch} {alarm : Fault} {frames : Nat} {around : List Task} {site : Site}
    {birth : Nat} {forms : List Value} {heap : Heap}
    (quiet : ∀ after, (bodyOf (watched watch alarm frames around) site birth forms).perform heap ≠
      (.error alarm, after))
    (whole : ((bodyOf (watched watch alarm frames around) site birth forms).perform
      heap).2.left? birth = none) :
    (bodyOf (watched watch alarm frames around) site birth forms).perform heap =
      (bodyFrom (watched watch alarm frames around) site .nil forms).perform heap := by
  obtain ⟨coming, upcoming⟩ : ∃ coming,
      (Action.upcoming birth 2 forms).perform heap = (.ok coming, heap) := by
    unfold Action.upcoming
    rw [Action.perform_get_bind]
    cases heap.left? birth with
    | none => exact ⟨forms, rfl⟩
    | some left => exact ⟨left.drop 2, rfl⟩
  rw [bodyOf, Action.perform_bind_ok upcoming, body] at quiet whole ⊢
  rw [bodyFrom_of_quiet quiet] at whole
  have remembers := (bodyFrom_keeps frames site .nil coming heap).becomes.extend.remembers
  have unlost : heap.left? birth = none := by
    have isWhole : (heap.IsWhole (.list coming birth)) := remembers.isWhole whole
    exact isWhole
  unfold Action.upcoming at upcoming
  rw [Action.perform_get_bind, unlost] at upcoming
  cases upcoming
  rfl

theorem perform_letIn_whole
    {frames : Nat} {site : Site} {birth : Nat} {pairs : List (String × Value)}
    {forms : List Value} {heap : Heap}
    (whole : ((special (solve frames) site birth (.letIn pairs forms)).perform
      heap).2.left? birth = none) :
    (special (solve frames) site birth (.letIn pairs forms)).perform heap =
      (bindAround (solve frames) site pairs forms).perform heap := by
  rw [special] at whole ⊢
  unfold bindAround
  rcases opens : (Action.childScope site.scope []).perform heap with ⟨fault | inner, opened⟩
  · rw [Action.perform_bind_error opens, Action.perform_bind_error opens]
  · rw [Action.perform_bind_ok opens] at whole ⊢
    rw [Action.perform_bind_ok opens]
    rcases binds : (bindAll (solve frames) (site.within inner) pairs).perform opened with
      ⟨fault | _, start⟩
    · rw [Action.perform_bind_error binds, Action.perform_bind_error binds]
    · rw [Action.perform_bind_ok binds] at whole ⊢
      rw [Action.perform_bind_ok binds]
      obtain ⟨alarm, quiet⟩ := Regime.exists_alarm
        ((bodyOf (solve frames) (site.within inner) birth forms).perform start)
      rw [← watched_never alarm frames []] at quiet whole ⊢
      rw [perform_bodyOf_whole quiet whole]

end Eval

/-- Where neither a `let` nor its vector has lost items in the end, the `let` binds and
evaluates just what it is made of. -/
theorem LetForm.perform_solve
    (binding : LetForm) (frames : Nat) {heap : Heap} {evaluator scope : Nat} {depth : Int}
    (shallow : ¬ heap.maxDepth evaluator < depth)
    (whole : binding.IsWhole ((Eval.solve (frames + 1)
      (.evaluate evaluator scope binding.form depth)).perform heap).2) :
    (Eval.solve (frames + 1) (.evaluate evaluator scope binding.form depth)).perform heap =
      (Eval.bindAround (Eval.solve frames) ⟨evaluator, scope, depth + 1⟩ binding.pairs
        binding.forms).perform heap := by
  have remembers := Eval.solve_remembers (frames + 1)
    (.evaluate evaluator scope binding.form depth) heap
  have wholeNow : binding.IsWhole heap :=
    ⟨remembers.isWhole whole.1, remembers.isWhole whole.2⟩
  have stepped := binding.perform_step wholeNow (Eval.solve frames) shallow scope
  have wholeList := whole.1
  rw [Eval.solve] at wholeList ⊢
  rw [stepped] at wholeList ⊢
  rw [Eval.perform_letIn_whole wholeList]
  exact Eval.bindAround_current frames _ binding.pairs binding.forms heap

end CueScript
