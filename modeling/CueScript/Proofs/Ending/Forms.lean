import CueScript.Eval
import CueScript.Proofs.Run.Agree

/-!
# Runs that settle

A run that may nest so many frames deep, and stops with a fault where it would nest deeper,
settles if from some number of frames on it always ends the same, whatever that fault is.
It then never comes to nest deeper.

There is a rule for every way in which actions are made.  What evaluation does with a form
settles if what it asks of its worker does.
-/

namespace CueScript

variable {α β : Type}

/-- A run with a number of frames and the fault with which it stops where they run out. -/
abbrev Unfolding (α : Type) := Nat → Fault → Action α

/-- Whether a run always ends in one way from a heap on if it has enough frames. -/
def EndsIn (run : Unfolding α) (heap : Heap) (ending : Except Fault α × Heap) : Prop :=
  ∃ enough, ∀ frames, enough ≤ frames → ∀ cut, (run frames cut).perform heap = ending

/-- Whether a run settles from a heap on. -/
def SettlesAt (run : Unfolding α) (heap : Heap) : Prop := ∃ ending, EndsIn run heap ending

/-- Whether a run settles from every heap on. -/
def Settles (run : Unfolding α) : Prop := ∀ heap, SettlesAt run heap

/-! ## Rules -/

theorem EndsIn.const (action : Action α) (heap : Heap) :
    EndsIn (fun _ _ => action) heap (action.perform heap) :=
  ⟨0, fun _ _ _ => rfl⟩

theorem Settles.const (action : Action α) : Settles fun _ _ => action :=
  fun heap => ⟨_, .const action heap⟩

/-- What follows has to settle only from where the first part ends. -/
theorem EndsIn.bind
    {first : Unfolding α} {next : α → Unfolding β} {heap : Heap}
    {ending : Except Fault α × Heap}
    (head : EndsIn first heap ending)
    (tail : ∀ value after, ending = (.ok value, after) → SettlesAt (next value) after) :
    SettlesAt (fun frames cut => first frames cut >>= fun value => next value frames cut)
      heap := by
  obtain ⟨enough, ends⟩ := head
  rcases ending with ⟨fault | value, after⟩
  · exact ⟨(.error fault, after), enough, fun frames above cut =>
      Action.perform_bind_error (ends frames above cut)⟩
  · obtain ⟨last, further, lasts⟩ := tail value after rfl
    refine ⟨last, max enough further, fun frames above cut => ?_⟩
    rw [Action.perform_bind_ok (ends frames (Nat.le_trans (Nat.le_max_left _ _) above) cut)]
    exact lasts frames (Nat.le_trans (Nat.le_max_right _ _) above) cut

theorem SettlesAt.bind
    {first : Unfolding α} {next : α → Unfolding β} {heap : Heap}
    (head : SettlesAt first heap) (tail : ∀ value, Settles (next value)) :
    SettlesAt (fun frames cut => first frames cut >>= fun value => next value frames cut)
      heap := by
  obtain ⟨ending, ends⟩ := head
  exact ends.bind fun value after _ => tail value after

theorem Settles.bind
    {first : Unfolding α} {next : α → Unfolding β}
    (head : Settles first) (tail : ∀ value, Settles (next value)) :
    Settles fun frames cut => first frames cut >>= fun value => next value frames cut :=
  fun heap => (head heap).bind tail

/-- The heap is looked at. -/
theorem SettlesAt.get_bind
    {next : Heap → Unfolding β} {heap : Heap} (tail : SettlesAt (next heap) heap) :
    SettlesAt (fun frames cut => (get : Action Heap) >>= fun heap => next heap frames cut)
      heap :=
  tail

/-- A call is made at some depth of an evaluator. -/
theorem Settles.atHostDepth
    {run : Unfolding α} (settles : Settles run) (evaluator : Nat) (depth : Int) :
    Settles fun frames cut => Action.atHostDepth evaluator depth (run frames cut) := by
  intro heap
  obtain ⟨ending, enough, ends⟩ := settles (heap.setHostDepth evaluator depth)
  refine ⟨(ending.1, ending.2.setHostDepth evaluator (heap.hostDepth evaluator)), enough, ?_⟩
  intro frames above cut
  rw [Action.perform_atHostDepth, ends frames above cut]

namespace Eval

/-- Whether the evaluation of every form at a depth settles. -/
def FormsSettle (worker : Nat → Fault → Worker) (evaluator : Nat) (depth : Int) : Prop :=
  ∀ scope item, Settles fun frames cut =>
    worker frames cut (.evaluate evaluator scope item depth)

/-- Whether all that evaluation at some depth can ask of a worker settles. -/
structure Supplies (worker : Nat → Fault → Worker) (evaluator : Nat) (depth : Int) : Prop where
  form : FormsSettle worker evaluator depth
  read : ∀ value name, Settles fun frames cut => worker frames cut (.read value name)
  enter : ∀ closure args, Settles fun frames cut => worker frames cut (.enter closure args depth)
  call : ∀ function args, Settles fun frames cut => worker frames cut (.call function args)

section Parts

variable {worker : Nat → Fault → Worker} {site : Site}

/-! ## Forms one after the other -/

theorem settles_form
    (forms : FormsSettle worker site.evaluator site.depth) (item : Value) :
    Settles fun frames cut => form (worker frames cut) site item :=
  forms site.scope item

theorem settles_items
    (forms : FormsSettle worker site.evaluator site.depth) (given : List Value) :
    Settles fun frames cut => items (worker frames cut) site given := by
  induction given with
  | nil => exact .const _
  | cons item rest inductionHypothesis =>
      exact .bind (settles_form forms item) fun _ =>
        .bind inductionHypothesis fun _ => .const _

theorem settles_bodyFrom
    (forms : FormsSettle worker site.evaluator site.depth) (result : Value)
    (given : List Value) :
    Settles fun frames cut => bodyFrom (worker frames cut) site result given := by
  induction given generalizing result with
  | nil => exact .const _
  | cons item rest inductionHypothesis =>
      exact .bind (settles_form forms item) fun value => inductionHypothesis value

theorem settles_body
    (forms : FormsSettle worker site.evaluator site.depth) (given : List Value) :
    Settles fun frames cut => body (worker frames cut) site given :=
  settles_bodyFrom forms .nil given

theorem settles_allTrue
    (forms : FormsSettle worker site.evaluator site.depth) (result : Value)
    (given : List Value) :
    Settles fun frames cut => allTrue (worker frames cut) site result given := by
  induction given generalizing result with
  | nil => exact .const _
  | cons item rest inductionHypothesis =>
      refine .bind (settles_form forms item) fun value => ?_
      cases value.isTrue with
      | true => exact inductionHypothesis value
      | false => exact .const _

theorem settles_anyTrue
    (forms : FormsSettle worker site.evaluator site.depth) (result : Value)
    (given : List Value) :
    Settles fun frames cut => anyTrue (worker frames cut) site result given := by
  induction given generalizing result with
  | nil => exact .const _
  | cons item rest inductionHypothesis =>
      refine .bind (settles_form forms item) fun value => ?_
      cases value.isTrue with
      | true => exact .const _
      | false => exact inductionHypothesis value

theorem settles_bindAll
    (forms : FormsSettle worker site.evaluator site.depth) (pairs : List (String × Value)) :
    Settles fun frames cut => bindAll (worker frames cut) site pairs := by
  induction pairs with
  | nil => exact .const _
  | cons pair rest inductionHypothesis =>
      obtain ⟨name, item⟩ := pair
      exact .bind (settles_form forms item) fun _ =>
        .bind (.const _) fun _ => inductionHypothesis

theorem settles_firstClause
    (forms : FormsSettle worker site.evaluator site.depth) (clauses : List (Value × Value)) :
    Settles fun frames cut => firstClause (worker frames cut) site clauses := by
  induction clauses with
  | nil => exact .const _
  | cons clause rest inductionHypothesis =>
      obtain ⟨test, item⟩ := clause
      refine .bind (settles_form forms test) fun value => ?_
      cases value.isTrue with
      | true => exact settles_form forms item
      | false => exact inductionHypothesis

/-! ## Special forms -/

theorem settles_branch
    (forms : FormsSettle worker site.evaluator site.depth) (holds : Bool)
    (branches : List Value) :
    Settles fun frames cut => branch (worker frames cut) site holds branches := by
  unfold branch
  split
  · exact settles_form forms _
  · exact .const _
  · exact settles_form forms _
  · exact .const _

theorem settles_bodyOf
    (forms : FormsSettle worker site.evaluator site.depth) (birth : Nat) (given : List Value) :
    Settles fun frames cut => bodyOf (worker frames cut) site birth given :=
  .bind (.const _) fun coming => settles_body forms coming

theorem settles_special
    (forms : FormsSettle worker site.evaluator site.depth) (birth : Nat)
    (parts : SpecialForm) :
    Settles fun frames cut => special (worker frames cut) site birth parts := by
  have inside (scope : Nat) :
      FormsSettle worker (site.within scope).evaluator (site.within scope).depth := forms
  cases parts with
  | quote item => exact .const _
  | ifThen test yes no =>
      exact .bind (settles_form forms test) fun value => .bind (.const _) fun branches =>
        settles_branch forms _ branches
  | when test given =>
      refine .bind (settles_form forms test) fun value => ?_
      cases value.isTrue with
      | true => exact settles_bodyOf forms birth given
      | false => exact .const _
  | whenNot test given =>
      refine .bind (settles_form forms test) fun value => ?_
      cases value.isTrue with
      | true => exact .const _
      | false => exact settles_bodyOf forms birth given
  | and given => exact settles_allTrue forms _ given
  | or given => exact settles_anyTrue forms _ given
  | sequence given => exact settles_body forms given
  | letIn bindings given =>
      exact .bind (.const _) fun scope => .bind (settles_bindAll (inside scope) bindings)
        fun _ => settles_bodyOf (inside scope) birth given
  | whenLet name test given =>
      refine .bind (settles_form forms test) fun value => ?_
      cases value.isTrue with
      | true =>
          exact .bind (.const _) fun scope => settles_bodyOf (inside scope) birth given
      | false => exact .const _
  | ifLet name test yes no =>
      refine .bind (settles_form forms test) fun value => .bind (.const _) fun branches => ?_
      cases value.isTrue with
      | true =>
          exact .bind (.const _) fun scope => settles_branch (inside scope) true branches
      | false => exact settles_branch forms false branches
  | cond clauses => exact settles_firstClause forms clauses
  | function name params rest given => exact .const _

/-! ## Functions and forms -/

theorem settles_callHost
    (supplies : Supplies worker site.evaluator site.depth) (function : Value)
    (args : List Value) :
    Settles fun frames cut => callHost (worker frames cut) site function args :=
  (supplies.call function args).atHostDepth site.evaluator site.depth

theorem settles_apply
    (supplies : Supplies worker site.evaluator site.depth) (head function : Value)
    (args : List Value) :
    Settles fun frames cut => apply (worker frames cut) site head function args := by
  refine .bind (.const _) fun present => ?_
  have others : Settles fun frames cut =>
      if Access.isCallable function then
        callHost (worker frames cut) site function args
      else
        headText head function >>= fun label => Action.shown function >>= fun text =>
          throw (.notFunction label text) := by
    cases Access.isCallable function with
    | true => exact settles_callHost supplies function args
    | false => exact .const _
  cases present with
  | closure => exact supplies.enter function args
  | map entries birth => exact .const _
  | _ => exact others

theorem settles_useMember
    (supplies : Supplies worker site.evaluator site.depth) (birth : Nat) (name : String)
    (parts : List Value) :
    Settles fun frames cut => useMember (worker frames cut) site birth name parts := by
  cases parts with
  | nil => exact .const _
  | cons target argForms =>
      refine .bind (settles_form supplies.form target) fun value => ?_
      refine .bind (supplies.read value _) fun found => .bind (.const _) fun coming => ?_
      refine .bind (settles_items supplies.form coming) fun args => ?_
      cases Access.isCallable found with
      | true => exact settles_callHost supplies found args
      | false => exact .const _

theorem settles_combination
    (supplies : Supplies worker site.evaluator site.depth) (birth : Nat) (head : Value)
    (argForms : List Value) :
    Settles fun frames cut => combination (worker frames cut) site birth head argForms :=
  .bind (settles_form supplies.form head) fun function => .bind (.const _) fun coming =>
    .bind (settles_items supplies.form coming) fun args =>
      settles_apply supplies head function args

theorem settles_symbolCombination
    (supplies : Supplies worker site.evaluator site.depth) (birth : Nat) (name : String)
    (argForms : List Value) :
    Settles fun frames cut =>
      symbolCombination (worker frames cut) site birth name argForms := by
  unfold symbolCombination
  simp only
  split
  · exact settles_special supplies.form birth _
  · exact .const _
  · split
    · exact settles_form supplies.form _
    · split
      · exact settles_useMember supplies birth _ argForms
      · exact settles_combination supplies birth _ argForms

/-- The evaluation of a form settles if everything one level deeper does. -/
theorem settles_formAt
    (supplies : Supplies worker site.evaluator (site.depth + 1)) (item : Value) :
    Settles fun frames cut => formAt (worker frames cut) site item := by
  have inner : Supplies worker site.inner.evaluator site.inner.depth := supplies
  unfold formAt
  split
  · exact .const _
  · exact .bind (settles_items inner.form _) fun _ => .const _
  · exact .const _
  · exact settles_symbolCombination inner _ _ _
  · exact settles_combination inner _ _ _
  · exact .const _
  · exact .const _

/-- The body of a closure settles if the forms of its evaluator do. -/
theorem settles_invoke
    {depth : Int} (forms : ∀ evaluator, FormsSettle worker evaluator (depth + 1))
    (closure : Value) (args : List Value) :
    Settles fun frames cut => invoke (worker frames cut) closure args depth := by
  unfold invoke
  split
  · rename_i name params rest given scope evaluator
    split
    · exact .bind (.const _) fun bound => .bind (.const _) fun inner =>
        @settles_body _ ⟨evaluator, inner, depth + 1⟩ (forms evaluator) given
    · exact .const _
  · exact .const _

end Parts

end Eval

end CueScript
