import CueScript.Proofs.Depth.Limit
import CueScript.Proofs.Depth.Shift
import CueScript.Proofs.Symbols.LetForm

/-!
# Derived conditionals

`when`, `when-not`, `cond`, `and` and `or` mean what they are derived from: a choice by `if`
between bodies, or the first form followed by the others.  What is derived and what it means
do the same work at other depths.  So they end alike, in the same value or fault and the
same heap, if no evaluator is asked for its depth, no limit ends either of them and the lists
that make up the forms lose no items.
-/

namespace CueScript

open Value

namespace Eval

/-! ## Parts that follow a test -/

section Parts

variable {heap later : Heap} (remembers : later.Remembers heap) (frames : Nat) (site : Site)

include remembers in
theorem firstClause_current (clauses : List (Value × Value)) :
    (firstClause (solve frames) site
        (clauses.map fun each => (heap.current each.1, heap.current each.2))).perform later =
      (firstClause (solve frames) site clauses).perform later := by
  induction clauses generalizing later with
  | nil => rfl
  | cons clause rest inductionHypothesis =>
      obtain ⟨test, item⟩ := clause
      have same : (form (solve frames) site (heap.current test)).perform later =
          (form (solve frames) site test).perform later :=
        solve_evaluate_current remembers frames site.evaluator site.scope test site.depth
      have further := solve_remembers frames
        (.evaluate site.evaluator site.scope test site.depth) later
      rw [List.map_cons, firstClause, firstClause, Action.perform_bind, Action.perform_bind, same]
      rcases ran : (form (solve frames) site test).perform later with ⟨fault | value, after⟩
      · rfl
      · rw [show solve frames _ = form (solve frames) site test from rfl, ran] at further
        simp only
        split
        · exact solve_evaluate_current (further.trans remembers) frames site.evaluator site.scope
            item site.depth
        · exact inductionHypothesis (further.trans remembers)

/-- Evaluate forms as long as their values let it go on. -/
def upTo (worker : Worker) (site : Site) (goesOn : Value → Bool) :
    Value → List Value → Action Value
  | result, [] => return result
  | _, item :: rest => do
      let value ← form worker site item
      if goesOn value then upTo worker site goesOn value rest else return value

theorem allTrue_eq_upTo (worker : Worker) (site : Site) (result : Value) (forms : List Value) :
    allTrue worker site result forms = upTo worker site isTrue result forms := by
  induction forms generalizing result with
  | nil => rfl
  | cons item rest inductionHypothesis => simp only [allTrue, upTo, inductionHypothesis]

theorem anyTrue_eq_upTo (worker : Worker) (site : Site) (result : Value) (forms : List Value) :
    anyTrue worker site result forms =
      upTo worker site (fun value => !value.isTrue) result forms := by
  induction forms generalizing result with
  | nil => rfl
  | cons item rest inductionHypothesis =>
      simp only [anyTrue, upTo, inductionHypothesis]
      congr 1
      funext value
      by_cases holds : value.isTrue = true <;> simp [holds]

include remembers in
theorem upTo_current (goesOn : Value → Bool) (result : Value) (forms : List Value) :
    (upTo (solve frames) site goesOn result (forms.map heap.current)).perform later =
      (upTo (solve frames) site goesOn result forms).perform later := by
  induction forms generalizing result later with
  | nil => rfl
  | cons item rest inductionHypothesis =>
      have same : (form (solve frames) site (heap.current item)).perform later =
          (form (solve frames) site item).perform later :=
        solve_evaluate_current remembers frames site.evaluator site.scope item site.depth
      have further := solve_remembers frames
        (.evaluate site.evaluator site.scope item site.depth) later
      rw [List.map_cons, upTo, upTo, Action.perform_bind, Action.perform_bind, same]
      rcases ran : (form (solve frames) site item).perform later with ⟨fault | value, after⟩
      · rfl
      · rw [show solve frames _ = form (solve frames) site item from rfl, ran] at further
        simp only
        split
        · exact inductionHypothesis (further.trans remembers) value
        · rfl

end Parts

/-! ## Special forms that have lost nothing -/

/-- A special form that has lost nothing is evaluated in its parts as they are now. -/
theorem perform_step_special
    {worker : Worker} {heap : Heap} {evaluator scope birth : Nat} {depth : Int} {name : String}
    {parts : List Value} {special : SpecialForm}
    (shallow : ¬ heap.maxDepth evaluator < depth) (whole : heap.left? birth = none)
    (isForm : SpecialForm.ofForm? name (.symbol name :: parts.map heap.current) =
      some (.ok special)) :
    (step worker (.evaluate evaluator scope (.list (.symbol name :: parts) birth) depth)).perform
        heap =
      (Eval.special worker ⟨evaluator, scope, depth + 1⟩ birth special).perform heap := by
  rw [perform_evaluate_shallow worker shallow, Heap.current_list whole, List.map_cons,
    Heap.current_symbol, formAt_of_ofForm isForm]
  rfl

/-- The branches of a choice that has lost nothing in the end are what it had at first. -/
theorem perform_branch_whole
    {frames : Nat} {site : Site} {birth : Nat} {branches : List Value} {holds : Bool}
    {heap : Heap}
    (whole : (((Action.upcoming birth 2 branches >>=
      branch (solve frames) site holds)).perform heap).2.left? birth = none) :
    (Action.upcoming birth 2 branches >>= branch (solve frames) site holds).perform heap =
      (branch (solve frames) site holds branches).perform heap := by
  have remembers (coming : List Value) :
      ((branch (solve frames) site holds coming).perform heap).2.Remembers heap := by
    cases holds with
    | true =>
        cases coming with
        | nil => exact .refl heap
        | cons yes rest => exact solve_remembers frames _ heap
    | false =>
        rcases coming with _ | ⟨yes, _ | ⟨no, _ | ⟨next, rest⟩⟩⟩
        · exact .refl heap
        · exact .refl heap
        · exact solve_remembers frames _ heap
        · exact .refl heap
  cases isLeft : heap.left? birth with
  | none =>
      have upcoming : (Action.upcoming birth 2 branches).perform heap = (.ok branches, heap) := by
        unfold Action.upcoming
        rw [Action.perform_get_bind, isLeft]
        rfl
      exact Action.perform_bind_ok upcoming
  | some left =>
      have upcoming : (Action.upcoming birth 2 branches).perform heap =
          (.ok (left.drop 2), heap) := by
        unfold Action.upcoming
        rw [Action.perform_get_bind, isLeft]
        rfl
      rw [Action.perform_bind_ok upcoming] at whole
      have stillLost := (remembers (left.drop 2)).losses birth (by rw [isLeft]; rfl)
      rw [whole] at stillLost
      cases stillLost

/-- What no limit ends is not too deep at its beginning. -/
theorem shallow_of_unlimited
    {frames : Nat} {site : Site} {item : Value} {heap : Heap}
    (unlimited : ∀ fault, ((form (solve (frames + 1)) site item).perform heap).1 =
      .error fault → ¬ fault.IsLimit) :
    ¬ heap.maxDepth site.evaluator < site.depth := by
  intro deep
  refine unlimited (.depthExceeded (heap.maxDepth site.evaluator)) ?_ trivial
  change ((step (solve frames) (.evaluate _ _ _ _)).perform heap).1 = _
  rw [perform_evaluate, if_pos deep]

/-! ## What comes one level deeper -/

/-- What is left of a conditional after its first test. -/
inductive Remainder where
  | body (forms : List Value)
  | clauses (pairs : List (Value × Value))

namespace Remainder

/-- Evaluate what is left. -/
def run (worker : Worker) (site : Site) : Remainder → Action Value
  | body forms => Eval.body worker site forms
  | clauses pairs => firstClause worker site pairs

/-- What is left, with its forms changed. -/
def map (change : Value → Value) : Remainder → Remainder
  | body forms => body (forms.map change)
  | clauses pairs => clauses (pairs.map fun each => (change each.1, change each.2))

/-- The forms of clauses one after the other. -/
def flat (pairs : List (Value × Value)) : List Value :=
  pairs.flatMap fun each => [each.1, each.2]

/-- What is left as a list of its own. -/
def list (birth : Nat) : Remainder → Value
  | body forms => .list (.symbol "do" :: forms) birth
  | clauses pairs => .list (.symbol "cond" :: flat pairs) birth

theorem length_flat (pairs : List (Value × Value)) : (flat pairs).length = 2 * pairs.length := by
  induction pairs with
  | nil => rfl
  | cons pair rest inductionHypothesis =>
      rw [flat, List.flatMap_cons, List.length_append, ← flat, inductionHypothesis]
      simp only [List.length_cons, List.length_nil]
      omega

theorem clausePairs_flat (pairs : List (Value × Value)) :
    SpecialForm.clausePairs (flat pairs) = pairs := by
  induction pairs with
  | nil => rfl
  | cons pair rest inductionHypothesis =>
      change (pair.1, pair.2) :: SpecialForm.clausePairs (flat rest) = _
      rw [inductionHypothesis]

theorem map_flat (change : Value → Value) (pairs : List (Value × Value)) :
    (flat pairs).map change = flat (pairs.map fun each => (change each.1, change each.2)) := by
  induction pairs with
  | nil => rfl
  | cons pair rest inductionHypothesis =>
      change change pair.1 :: change pair.2 :: (flat rest).map change = _
      rw [inductionHypothesis]
      rfl

theorem ofForm_cond (pairs : List (Value × Value)) :
    SpecialForm.ofForm? "cond" (.symbol "cond" :: flat pairs) = some (.ok (.cond pairs)) := by
  have isEven : (flat pairs).length % 2 = 0 := by
    rw [length_flat]
    omega
  change some (SpecialForm.asCond _) = _
  rw [SpecialForm.asCond, List.tail_cons, if_pos isEven, clausePairs_flat]
  rfl

theorem run_current
    {heap later : Heap} (remembers : later.Remembers heap) (frames : Nat) (site : Site)
    (rest : Remainder) :
    ((rest.map heap.current).run (solve frames) site).perform later =
      (rest.run (solve frames) site).perform later := by
  cases rest with
  | body forms => exact bodyFrom_current remembers frames site .nil forms
  | clauses pairs => exact firstClause_current remembers frames site pairs

theorem twin_run
    {alarm : Fault} {worker other : Worker} {site there : Site}
    (workers : WorkersTwin (besideDeeper alarm) worker other)
    (sites : Site.Twin (besideDeeper alarm) site there) (rest : Remainder) :
    Twin (besideDeeper alarm) (rename (besideDeeper alarm).numbers) (rest.run worker site)
      (rest.run other there) := by
  have same : (besideDeeper alarm).numbers = .identity := rfl
  cases rest with
  | body forms =>
      have twin := twin_body workers sites forms
      rw [same, map_rename_identity] at twin
      exact twin
  | clauses pairs =>
      have twin := twin_firstClause workers sites pairs
      rw [same, map_renameEntry_identity] at twin
      exact twin

/-- A remainder that is a list of its own is evaluated one level deeper. -/
theorem perform_step_list
    {worker : Worker} {heap : Heap} {evaluator scope birth : Nat} {depth : Int}
    (shallow : ¬ heap.maxDepth evaluator < depth) (whole : heap.left? birth = none)
    (rest : Remainder) :
    (step worker (.evaluate evaluator scope (rest.list birth) depth)).perform heap =
      ((rest.map heap.current).run worker ⟨evaluator, scope, depth + 1⟩).perform heap := by
  cases rest with
  | body forms =>
      have isForm : SpecialForm.ofForm? "do" (.symbol "do" :: forms.map heap.current) =
          some (.ok (.sequence (forms.map heap.current))) := rfl
      exact perform_step_special shallow whole isForm
  | clauses pairs =>
      have isForm := ofForm_cond (pairs.map fun each => (heap.current each.1, heap.current each.2))
      rw [← map_flat] at isForm
      exact perform_step_special shallow whole isForm

/-- What is left of a conditional ends as it does in a list of its own, unless a limit ends
that. -/
theorem perform_list
    {alarm : Fault} {frames : Nat} {around : List Task} {site : Site} {birth : Nat}
    {heap after : Heap} {rest : Remainder} {ending : Except Fault Value × Heap}
    (remembers : after.Remembers heap)
    (ran : ((rest.map heap.current).run (watched asksHostDepth alarm frames around)
      site).perform after = ending)
    (quiet : ∀ last, ending ≠ (.error alarm, last))
    (sameEvaluators : ending.2.evaluators = after.evaluators)
    (unlimited : ∀ fault, ((form (solve frames) site
      (heap.current (rest.list birth))).perform after).1 = .error fault → ¬ fault.IsLimit)
    (whole : ((form (solve frames) site (heap.current (rest.list birth))).perform
      after).2.left? birth = none) :
    (form (solve frames) site (heap.current (rest.list birth))).perform after = ending := by
  have current : (form (solve frames) site (heap.current (rest.list birth))).perform after =
      (form (solve frames) site (rest.list birth)).perform after :=
    solve_evaluate_current remembers frames site.evaluator site.scope (rest.list birth) site.depth
  rw [current] at unlimited whole ⊢
  have keeps := solve_evaluators frames
    (.evaluate site.evaluator site.scope (rest.list birth) site.depth) after
  have remembered := solve_remembers frames
    (.evaluate site.evaluator site.scope (rest.list birth) site.depth) after
  have wholeNow : after.IsWhole (.list [] birth) := remembered.isWhole whole
  change ((form (solve frames) site (rest.list birth)).perform after).2.evaluators = _ at keeps
  cases frames with
  | zero => exact absurd trivial (unlimited _ rfl)
  | succ fewer =>
      have shallow := shallow_of_unlimited unlimited
      have stepped : (form (solve (fewer + 1)) site (rest.list birth)).perform after =
          ((rest.map heap.current).run (solve fewer) site.inner).perform after := by
        change (step (solve fewer) (.evaluate _ _ _ _)).perform after = _
        rw [perform_step_list shallow wholeNow, run_current (.refl after), run_current remembers]
        rfl
      rw [stepped] at keeps unlimited ⊢
      have sites : Site.Twin (besideDeeper alarm) site site.inner :=
        ⟨⟨rfl, .inr ⟨trivial, Int.le_of_lt (Int.lt_succ site.depth)⟩⟩, rfl⟩
      have workers := workers_twin (besideDeeper_covered alarm)
        (.inr ⟨besideDeeper_deeper alarm, Nat.le_succ fewer⟩) around
      have ends := twin_run workers sites (rest.map heap.current) after after
        ((Heap.Shallower.refl after).like alarm)
      change TwinEnds (besideDeeper alarm) _ (((rest.map heap.current).run
        (watched asksHostDepth alarm (fewer + 1) around) site).perform after) _ at ends
      rw [ran] at ends
      have settled := ends.eq_of_deeper quiet unlimited
      rw [sameEvaluators, ← keeps] at settled
      exact settled.symm

end Remainder

/-! ## Watched tests -/

/-- What a watched run ends with is what comes after its test, which the run without a watch
has, too. -/
theorem perform_test
    {watch : Watch} {alarm : Fault} {frames : Nat} {around : List Task} {site : Site}
    {test : Value} {next later : Value → Action Value} {heap : Heap}
    {ending : Except Fault Value × Heap}
    (ran : (form (watched watch alarm frames around) site test >>= next).perform heap = ending)
    (quiet : ∀ last, ending ≠ (.error alarm, last))
    (tail : ∀ value after, (form (solve frames) site test).perform heap = (.ok value, after) →
      (next value).perform after = ending → (later value).perform after = ending) :
    (form (solve frames) site test >>= later).perform heap = ending := by
  have sameTest (notStopped : ∀ last,
      (form (watched watch alarm frames around) site test).perform heap ≠ (.error alarm, last)) :
      (form (watched watch alarm frames around) site test).perform heap =
        (form (solve frames) site test).perform heap := watched_of_quiet notStopped
  rcases tested : (form (watched watch alarm frames around) site test).perform heap with
    ⟨fault | value, after⟩
  · rw [Action.perform_bind_error tested] at ran
    have notAlarm : fault ≠ alarm := by
      rintro rfl
      exact quiet after ran.symm
    rw [tested] at sameTest
    have same := sameTest fun last stopped => by
      cases stopped
      exact notAlarm rfl
    rw [Action.perform_bind_error same.symm, ran]
  · rw [Action.perform_bind_ok tested] at ran
    rw [tested] at sameTest
    have same := sameTest fun last stopped => nomatch stopped
    rw [Action.perform_bind_ok same.symm]
    exact tail value after same.symm ran

end Eval

/-! ## Derived conditionals -/

/-- The derived conditionals in their parts.  A junction has two forms at least. -/
inductive Derived where
  | when (test : Value) (forms : List Value)
  | whenNot (test : Value) (forms : List Value)
  | cond (test item : Value) (rest : List (Value × Value))
  | and (first second : Value) (rest : List Value)
  | or (first second : Value) (rest : List Value)

namespace Derived

open Eval

/-- It as a list with a number. -/
def form (birth : Nat) : Derived → Value
  | when test forms => .list (.symbol "when" :: test :: forms) birth
  | whenNot test forms => .list (.symbol "when-not" :: test :: forms) birth
  | cond test item rest => .list (.symbol "cond" :: test :: item :: Remainder.flat rest) birth
  | and first second rest => .list (.symbol "and" :: first :: second :: rest) birth
  | or first second rest => .list (.symbol "or" :: first :: second :: rest) birth

/-- What it means: to evaluate what it is derived from, a list with a number around another
one, or to evaluate the first form and then perhaps the list of the others. -/
def meaning (outer inner : Nat) (worker : Worker) (site : Site) : Derived → Action Value
  | when test forms =>
      Eval.form worker site
        (.list [.symbol "if", test, .list (.symbol "do" :: forms) inner] outer)
  | whenNot test forms =>
      Eval.form worker site
        (.list [.symbol "if", test, .symbol "nil", .list (.symbol "do" :: forms) inner] outer)
  | cond test item rest =>
      Eval.form worker site
        (.list [.symbol "if", test, item,
          .list (.symbol "cond" :: Remainder.flat rest) inner] outer)
  | and first second rest => do
      let value ← Eval.form worker site first
      if value.isTrue then
        Eval.form worker site (.list (.symbol "and" :: second :: rest) inner)
      else
        return value
  | or first second rest => do
      let value ← Eval.form worker site first
      if value.isTrue then
        return value
      else
        Eval.form worker site (.list (.symbol "or" :: second :: rest) inner)

section Meaning

variable {alarm : Fault} {frames : Nat} {around : List Task} {site : Site}
  {birth outer inner : Nat} {heap : Heap} {ending : Except Fault Value × Heap}

/-! ## Choices -/

/-- A choice by `if` as a list with a number. -/
def choice (outer : Nat) (test yes : Value) (no : Option Value) : Value :=
  .list (.symbol "if" :: test :: yes :: no.toList) outer

theorem perform_choice_whole
    (shallow : ¬ heap.maxDepth site.evaluator < site.depth) (whole : heap.left? outer = none)
    (test yes : Value) (no : Option Value) :
    (Eval.form (solve (frames + 1)) site (choice outer test yes no)).perform heap =
      (do
        let value ← Eval.form (solve frames) site.inner (heap.current test)
        let branches ← Action.upcoming outer 2 ((yes :: no.toList).map heap.current)
        branch (solve frames) site.inner value.isTrue branches : Action Value).perform heap := by
  cases no with
  | none =>
      have isForm : SpecialForm.ofForm? "if" (.symbol "if" :: [test, yes].map heap.current) =
          some (.ok (.ifThen (heap.current test) (heap.current yes) none)) := rfl
      exact perform_step_special shallow whole isForm
  | some other =>
      have isForm : SpecialForm.ofForm? "if" (.symbol "if" :: [test, yes, other].map heap.current) =
          some (.ok (.ifThen (heap.current test) (heap.current yes) (heap.current other))) := rfl
      exact perform_step_special shallow whole isForm

/-- A choice by `if` ends as something else with the same test if the branches end as what
comes after that. -/
theorem perform_choice
    {test yes : Value} {no : Option Value} {next : Value → Action Value}
    (ran : (Eval.form (watched asksHostDepth alarm frames around) site.inner
      (heap.current test) >>= next).perform heap = ending)
    (quiet : ∀ last, ending ≠ (.error alarm, last))
    (unlimited : ∀ fault, ((Eval.form (solve (frames + 1)) site
      (choice outer test yes no)).perform heap).1 = .error fault → ¬ fault.IsLimit)
    (whole : ((Eval.form (solve (frames + 1)) site
      (choice outer test yes no)).perform heap).2.left? outer = none)
    (tail : ∀ value after, after.Remembers heap → after.evaluators = heap.evaluators →
      (next value).perform after = ending →
      (Eval.form (solve (frames + 1)) site (choice outer test yes no)).perform heap =
        (branch (solve frames) site.inner value.isTrue
          ((yes :: no.toList).map heap.current)).perform after →
      (branch (solve frames) site.inner value.isTrue
        ((yes :: no.toList).map heap.current)).perform after = ending) :
    (Eval.form (solve (frames + 1)) site (choice outer test yes no)).perform heap = ending := by
  have remembered := solve_remembers (frames + 1)
    (.evaluate site.evaluator site.scope (choice outer test yes no) site.depth) heap
  have wholeNow : heap.IsWhole (choice outer test yes no) := remembered.isWhole whole
  have opened := @perform_choice_whole frames site outer heap (shallow_of_unlimited unlimited)
    wholeNow test yes no
  rw [opened] at whole tail ⊢
  refine perform_test ran quiet fun value after tested follows => ?_
  have first := solve_remembers frames
    (.evaluate site.evaluator site.scope (heap.current test) site.inner.depth) heap
  have kept := solve_evaluators frames
    (.evaluate site.evaluator site.scope (heap.current test) site.inner.depth) heap
  change ((Eval.form (solve frames) site.inner (heap.current test)).perform heap).2.Remembers heap
    at first
  change ((Eval.form (solve frames) site.inner (heap.current test)).perform
    heap).2.evaluators = _ at kept
  rw [tested] at first kept
  rw [Action.perform_bind_ok tested] at whole tail
  have taken := perform_branch_whole whole
  rw [taken] at tail ⊢
  exact tail value after first kept follows rfl

/-- What is known of a form that is evaluated under a watch for questions for a depth. -/
structure Ends (alarm : Fault) (frames : Nat) (site : Site) (heap : Heap) (birth : Nat)
    (item : Value) (ending : Except Fault Value × Heap) : Prop where
  ran : (Eval.form (solve (frames + 1)) site item).perform heap = ending
  watchedToo :
    (Eval.form (watched asksHostDepth alarm (frames + 1) []) site item).perform heap = ending
  quiet : ∀ last, ending ≠ (.error alarm, last)
  unlimited : ∀ fault, ending.1 = .error fault → ¬ fault.IsLimit
  whole : ending.2.left? birth = none

namespace Ends

variable {name : String} {parts : List Value} {announced : SpecialForm}

theorem evaluators {item : Value} (ends : Ends alarm frames site heap birth item ending) :
    ending.2.evaluators = heap.evaluators := by
  have kept := solve_evaluators (frames + 1)
    (.evaluate site.evaluator site.scope item site.depth) heap
  rw [← ends.ran]
  exact kept

/-- It is the special form that its head announces, with the watch and without it. -/
theorem perform_special
    (ends : Ends alarm frames site heap birth (.list (.symbol name :: parts) birth) ending)
    (isForm : SpecialForm.ofForm? name (.symbol name :: parts.map heap.current) =
      some (.ok announced)) :
    (∃ around, (Eval.special (watched asksHostDepth alarm frames around) site.inner birth
        announced).perform heap = ending) ∧
      (Eval.special (solve frames) site.inner birth announced).perform heap = ending := by
  have remembered := solve_remembers (frames + 1)
    (.evaluate site.evaluator site.scope (.list (.symbol name :: parts) birth) site.depth) heap
  have unlimited := ends.unlimited
  have whole := ends.whole
  rw [← ends.ran] at unlimited whole
  have shallow := shallow_of_unlimited unlimited
  have wholeNow : heap.IsWhole (.list (.symbol name :: parts) birth) := remembered.isWhole whole
  have ran := ends.ran
  have watchedToo := ends.watchedToo
  rw [Eval.form, perform_watched_succ] at watchedToo
  rw [Eval.form, solve, perform_step_special shallow wholeNow isForm] at ran
  exact ⟨⟨_, (perform_step_special shallow wholeNow isForm).symm.trans watchedToo⟩, ran⟩

end Ends

/-- The branch that is left of a conditional ends as the conditional. -/
theorem perform_left
    {rest : Remainder} {item : Value} {after : Heap}
    (ends : Ends alarm frames site heap birth item ending)
    (remembers : after.Remembers heap) (kept : after.evaluators = heap.evaluators)
    (ran : ((rest.map heap.current).run (watched asksHostDepth alarm frames around)
      site.inner).perform after = ending)
    {meant : Except Fault Value × Heap}
    (isLeft : meant =
      (Eval.form (solve frames) site.inner (heap.current (rest.list inner))).perform after)
    (unlimited : ∀ fault, meant.1 = .error fault → ¬ fault.IsLimit)
    (whole : meant.2.left? inner = none) :
    (Eval.form (solve frames) site.inner (heap.current (rest.list inner))).perform after =
      ending := by
  rw [isLeft] at unlimited whole
  exact Remainder.perform_list remembers ran ends.quiet (ends.evaluators.trans kept.symm)
    unlimited whole

theorem meaning_when
    {test : Value} {forms : List Value}
    (ends : Ends alarm frames site heap birth ((when test forms).form birth) ending)
    (unlimited : ∀ fault, (((when test forms).meaning outer inner (solve (frames + 1))
      site).perform heap).1 = .error fault → ¬ fault.IsLimit)
    (wholeOuter : (((when test forms).meaning outer inner (solve (frames + 1))
      site).perform heap).2.left? outer = none)
    (wholeInner : (((when test forms).meaning outer inner (solve (frames + 1))
      site).perform heap).2.left? inner = none) :
    ((when test forms).meaning outer inner (solve (frames + 1)) site).perform heap = ending := by
  have isForm : SpecialForm.ofForm? "when" (.symbol "when" :: (test :: forms).map heap.current) =
      some (.ok (.when (heap.current test) (forms.map heap.current))) := rfl
  obtain ⟨⟨around, ran⟩, -⟩ := ends.perform_special isForm
  let rest := Remainder.body forms
  change (Eval.form (solve (frames + 1)) site (choice outer test (rest.list inner) none)).perform
    heap = ending
  refine perform_choice ran ends.quiet unlimited wholeOuter ?_
  intro value after remembers kept follows isBranch
  cases holds : value.isTrue with
  | false =>
      rw [holds] at follows
      exact follows
  | true =>
      rw [holds] at follows isBranch
      have bodyRan : (bodyOf (watched asksHostDepth alarm frames around) site.inner birth
          (forms.map heap.current)).perform after = ending := follows
      have quiet := ends.quiet
      have whole := ends.whole
      rw [← bodyRan] at quiet whole
      rw [perform_bodyOf_whole quiet whole] at bodyRan
      exact perform_left ends remembers kept bodyRan isBranch unlimited wholeInner

theorem meaning_whenNot
    {test : Value} {forms : List Value}
    (ends : Ends alarm frames site heap birth ((whenNot test forms).form birth) ending)
    (unlimited : ∀ fault, (((whenNot test forms).meaning outer inner (solve (frames + 1))
      site).perform heap).1 = .error fault → ¬ fault.IsLimit)
    (wholeOuter : (((whenNot test forms).meaning outer inner (solve (frames + 1))
      site).perform heap).2.left? outer = none)
    (wholeInner : (((whenNot test forms).meaning outer inner (solve (frames + 1))
      site).perform heap).2.left? inner = none) :
    ((whenNot test forms).meaning outer inner (solve (frames + 1)) site).perform heap =
      ending := by
  have isForm :
      SpecialForm.ofForm? "when-not" (.symbol "when-not" :: (test :: forms).map heap.current) =
        some (.ok (.whenNot (heap.current test) (forms.map heap.current))) := rfl
  obtain ⟨⟨around, ran⟩, -⟩ := ends.perform_special isForm
  let rest := Remainder.body forms
  change (Eval.form (solve (frames + 1)) site
    (choice outer test (.symbol "nil") (some (rest.list inner)))).perform heap = ending
  refine perform_choice ran ends.quiet unlimited wholeOuter ?_
  intro value after remembers kept follows isBranch
  cases holds : value.isTrue with
  | true =>
      rw [holds] at follows isBranch
      have isNil : (Eval.form (solve frames) site.inner (heap.current (.symbol "nil"))).perform
          after = (.ok .nil, after) := by
        have uncut : ∀ fault, ((Eval.form (solve frames) site.inner
            (heap.current (.symbol "nil"))).perform after).1 = .error fault → ¬ fault.IsLimit :=
          fun fault isFault => unlimited fault ((congrArg Prod.fst isBranch).trans isFault)
        rw [Heap.current_symbol] at uncut ⊢
        cases frames with
        | zero => exact absurd trivial (uncut _ rfl)
        | succ fewer =>
            have shallow := shallow_of_unlimited uncut
            change (step (solve fewer) (.evaluate _ _ _ _)).perform after = _
            rw [perform_evaluate_shallow _ shallow, Heap.current_symbol]
            rfl
      exact isNil.trans follows
  | false =>
      rw [holds] at follows isBranch
      have bodyRan : (bodyOf (watched asksHostDepth alarm frames around) site.inner birth
          (forms.map heap.current)).perform after = ending := follows
      have quiet := ends.quiet
      have whole := ends.whole
      rw [← bodyRan] at quiet whole
      rw [perform_bodyOf_whole quiet whole] at bodyRan
      exact perform_left ends remembers kept bodyRan isBranch unlimited wholeInner

theorem meaning_cond
    {test item : Value} {rest : List (Value × Value)}
    (ends : Ends alarm frames site heap birth ((cond test item rest).form birth) ending)
    (unlimited : ∀ fault, (((cond test item rest).meaning outer inner (solve (frames + 1))
      site).perform heap).1 = .error fault → ¬ fault.IsLimit)
    (wholeOuter : (((cond test item rest).meaning outer inner (solve (frames + 1))
      site).perform heap).2.left? outer = none)
    (wholeInner : (((cond test item rest).meaning outer inner (solve (frames + 1))
      site).perform heap).2.left? inner = none) :
    ((cond test item rest).meaning outer inner (solve (frames + 1)) site).perform heap =
      ending := by
  have isForm := Remainder.ofForm_cond
    (((test, item) :: rest).map fun each => (heap.current each.1, heap.current each.2))
  rw [← Remainder.map_flat] at isForm
  obtain ⟨⟨around, ran⟩, -⟩ := ends.perform_special isForm
  let left := Remainder.clauses rest
  change (Eval.form (solve (frames + 1)) site
    (choice outer test item (some (left.list inner)))).perform heap = ending
  refine perform_choice ran ends.quiet unlimited wholeOuter ?_
  intro value after remembers kept follows isBranch
  cases holds : value.isTrue with
  | true =>
      rw [holds] at follows
      have itemRan : (watched asksHostDepth alarm frames around (.evaluate site.evaluator site.scope
          (heap.current item) site.inner.depth)).perform after = ending := follows
      have quiet := ends.quiet
      rw [← itemRan] at quiet
      exact (watched_of_quiet quiet).symm.trans itemRan
  | false =>
      rw [holds] at follows isBranch
      exact perform_left ends remembers kept follows isBranch unlimited wholeInner

/-- A junction ends as its first form, if that does not let it go on, and otherwise as the
junction of the others. -/
theorem meaning_junction
    {name : String} {first second initial : Value} {rest : List Value} {goesOn : Value → Bool}
    (ends : Ends alarm frames site heap birth
      (.list (.symbol name :: first :: second :: rest) birth) ending)
    (isForm : ∀ forms, ∃ announced,
      SpecialForm.ofForm? name (.symbol name :: forms) = some (.ok announced) ∧
        ∀ worker site birth,
          special worker site birth announced = upTo worker site goesOn initial forms)
    {meant : Except Fault Value × Heap}
    (isMeant : (do
      let value ← Eval.form (solve (frames + 1)) site first
      if goesOn value then
        Eval.form (solve (frames + 1)) site (.list (.symbol name :: second :: rest) inner)
      else
        return value : Action Value).perform heap = meant)
    (wholeInner : meant.2.left? inner = none) :
    meant = ending := by
  obtain ⟨announced, isAnnounced, isUpTo⟩ :=
    isForm ((first :: second :: rest).map heap.current)
  obtain ⟨⟨around, watchedRan⟩, ran⟩ := ends.perform_special isAnnounced
  have unlimited := ends.unlimited
  rw [← ends.ran] at unlimited
  have shallow := shallow_of_unlimited unlimited
  rw [isUpTo, List.map_cons, upTo] at watchedRan ran
  -- the first form is nested less deeply by itself
  have firstQuiet : ∀ after, (watched asksHostDepth alarm frames around
      (.evaluate site.evaluator site.scope (heap.current first) site.inner.depth)).perform heap ≠
        (.error alarm, after) := fun after stopped =>
    ends.quiet after (watchedRan.symm.trans (Action.perform_bind_error stopped))
  have firstUnlimited : ∀ fault, ((solve frames
      (.evaluate site.evaluator site.scope (heap.current first) site.inner.depth)).perform
        heap).1 = .error fault → ¬ fault.IsLimit := fun fault isFault => by
    apply ends.unlimited fault
    rw [← ran]
    exact congrArg Prod.fst (Action.perform_bind_error (Prod.ext isFault rfl))
  have sameFirst := solve_eq_of_deeper (Nat.le_succ frames)
    (.evaluate site.evaluator site.scope (heap.current first)
      (Int.le_of_lt (Int.lt_succ site.depth))) firstQuiet firstUnlimited
  rw [perform_evaluate_current] at sameFirst
  change (Eval.form (solve (frames + 1)) site first).perform heap =
    (Eval.form (solve frames) site.inner (heap.current first)).perform heap at sameFirst
  have remembers := solve_remembers (frames + 1)
    (.evaluate site.evaluator site.scope first site.depth) heap
  have kept := solve_evaluators (frames + 1)
    (.evaluate site.evaluator site.scope first site.depth) heap
  change ((Eval.form (solve (frames + 1)) site first).perform heap).2.Remembers heap at remembers
  change ((Eval.form (solve (frames + 1)) site first).perform heap).2.evaluators = _ at kept
  rcases firstRan : (Eval.form (solve (frames + 1)) site first).perform heap with
    ⟨fault | value, after⟩
  · rw [Action.perform_bind_error firstRan] at isMeant
    rw [Action.perform_bind_error (sameFirst.symm.trans firstRan)] at ran
    exact isMeant.symm.trans ran
  · rw [firstRan] at remembers kept
    rw [Action.perform_bind_ok firstRan] at isMeant
    rw [Action.perform_bind_ok (sameFirst.symm.trans firstRan)] at ran
    cases on : goesOn value with
    | false =>
        rw [on] at isMeant ran
        exact isMeant.symm.trans ran
    | true =>
        rw [on] at isMeant ran
        let others := Value.list (.symbol name :: second :: rest) inner
        change (Eval.form (solve (frames + 1)) site others).perform after = meant at isMeant
        have further := solve_remembers (frames + 1)
          (.evaluate site.evaluator site.scope others site.depth) after
        change ((Eval.form (solve (frames + 1)) site others).perform after).2.Remembers after
          at further
        rw [isMeant] at further
        have wholeNow : after.IsWhole others := further.isWhole wholeInner
        have stillShallow : ¬ after.maxDepth site.evaluator < site.depth := by
          have sameLimit : after.maxDepth site.evaluator = heap.maxDepth site.evaluator := by
            rw [Heap.maxDepth, Heap.config, kept]
            rfl
          rw [sameLimit]
          exact shallow
        obtain ⟨announcedOthers, isAnnouncedOthers, isUpToOthers⟩ :=
          isForm ((second :: rest).map after.current)
        have othersRan : (Eval.form (solve (frames + 1)) site others).perform after =
            (upTo (solve frames) site.inner goesOn initial
              ((second :: rest).map after.current)).perform after := by
          rw [← isUpToOthers (solve frames) site.inner inner]
          exact perform_step_special stillShallow wholeNow isAnnouncedOthers
        rw [upTo_current (.refl after)] at othersRan
        have sameRan : (upTo (solve frames) site.inner goesOn value
            ((second :: rest).map heap.current)).perform after = ending := ran
        rw [upTo_current remembers] at sameRan
        rw [← isMeant, othersRan, ← sameRan]
        rfl

end Meaning

/-! ### A clause that calls back, and a question for the depth -/

/-- `(cond false 1 (first (map (fn [n] n) [true])) 2)`. -/
def secondClause : Derived :=
  let same := Value.list [.symbol "fn", .vector [.symbol "n"] 0, .symbol "n"] 0
  let mapped := Value.list [.symbol "map", same, .vector [.symbol "true"] 0] 0
  .cond (.symbol "false") (.int 1) [(.list [.symbol "first", mapped] 0, .int 2)]

/-- Whether a run gives a number and leaves a list without losses. -/
def gives (number : Int) (births : List Nat) (ending : Except Fault Value × Heap) : Bool :=
  match ending.1 with
  | .ok (.int result) => result == number && births.all fun birth => (ending.2.left? birth).isNone
  | _ => false

theorem of_gives
    {number : Int} {births : List Nat} {ending : Except Fault Value × Heap}
    (isGiven : gives number births ending = true) :
    ending.1 = .ok (.int number) ∧ ∀ birth ∈ births, ending.2.left? birth = none := by
  obtain ⟨outcome, heap⟩ := ending
  unfold gives at isGiven
  split at isGiven
  · next result isOk =>
      simp only [Bool.and_eq_true, beq_iff_eq, List.all_eq_true, Option.isNone_iff_eq_none]
        at isGiven
      exact ⟨isGiven.1 ▸ isOk, isGiven.2⟩
  · cases isGiven

/-- `(when true (.host-depth (.evaluator (fn [] 1))))`. -/
def askedDepth : Derived :=
  let closure := Value.list [.symbol "fn", .vector [] 0, .int 1] 0
  .when (.symbol "true")
    [.list [.symbol ".host-depth", .list [.symbol ".evaluator", closure] 0] 0]

end Derived

end CueScript
