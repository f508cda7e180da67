import CueScript.Proofs.Ending.Depths

/-!
# Bodies end

The evaluation of a body ends if all closures are those of its evaluator, members are read
of events only, and no store is gone through inside of a call that goes through it: there
is a bound that nesting stays below, so that the outcome does not depend on how many frames
there are.  Then each form is evaluated deeper than the one inside of which that happens,
also where built-in functions call closures back.
-/

namespace CueScript

open Value Depth Eval

/-! ## Frames -/

namespace Ending

/-- More pieces of work nest than a bound allows. -/
def nestsBeyond (bound : Nat) : Watch := fun path _ => decide (bound < path.length)

end Ending

namespace Eval

open Ending

/-- Whether no run of a body meets what a watch looks out for, however many frames it may
nest. -/
def BodyAvoids (watch : Watch) (site : Site) (forms : List Value) (heap : Heap) : Prop :=
  ∀ frames alarm, (body (watched watch alarm frames []) site forms).perform heap =
    (body (solve frames) site forms).perform heap

section Frames

variable {watch : Watch} {alarm : Fault} {frames bound : Nat} {around : List Task}

theorem watched_eq_guarded (watch : Watch) (alarm : Fault) (frames : Nat) (around : List Task) :
    watched watch alarm frames around =
      guarded watch alarm frames (.failed .stackExhausted) around := by
  induction frames generalizing around with
  | zero => rfl
  | succ frames inductionHypothesis =>
      funext task
      rw [watched, guarded]
      simp only [inductionHypothesis]

/-- A run that must not nest beyond a bound is cut off where the frames up to there run
out. -/
theorem watched_nestsBeyond
    {left : Nat} (fits : around.length + left = bound) (enough : left < frames) :
    watched (watch.or (nestsBeyond bound)) alarm frames around =
      guarded watch alarm left alarm around := by
  induction left generalizing frames around with
  | zero =>
      obtain ⟨fewer, rfl⟩ := Nat.exists_eq_succ_of_ne_zero (Nat.ne_of_gt enough)
      funext task heap
      have beyond : nestsBeyond bound (task :: around) heap = true :=
        decide_eq_true (Nat.lt_succ_of_le (Nat.le_of_eq fits.symm))
      refine (perform_watched_succ _ alarm fewer around task heap).trans ?_
      rw [Watch.or, beyond, Bool.or_true, if_pos rfl]
      rfl
  | succ left inductionHypothesis =>
      obtain ⟨fewer, rfl⟩ := Nat.exists_eq_succ_of_ne_zero (Nat.ne_zero_of_lt enough)
      funext task heap
      have inBound : nestsBeyond bound (task :: around) heap = false := by
        refine decide_eq_false ?_
        rw [List.length_cons]
        omega
      have inside : (task :: around).length + left = bound := by
        rw [List.length_cons]
        omega
      refine (perform_watched_succ _ alarm fewer around task heap).trans ?_
      rw [Watch.or, inBound, Bool.or_false,
        inductionHypothesis inside (Nat.lt_of_succ_lt_succ enough)]
      exact (perform_guarded_succ watch alarm left alarm around task heap).symm

theorem watched_of_inBound (fits : around.length + frames ≤ bound) :
    watched (nestsBeyond bound) alarm frames around = solve frames := by
  induction frames generalizing around with
  | zero => rfl
  | succ frames inductionHypothesis =>
      funext task heap
      have inBound : nestsBeyond bound (task :: around) heap = false := by
        refine decide_eq_false ?_
        rw [List.length_cons]
        omega
      have inside : (task :: around).length + frames ≤ bound := by
        rw [List.length_cons]
        omega
      refine (perform_watched_succ _ alarm frames around task heap).trans ?_
      rw [inBound, if_neg Bool.false_ne_true, inductionHypothesis inside]
      rfl

end Frames

/-! ## The outcome of a body -/

section Bodies

variable {site : Site} {forms : List Value} {heap : Heap} {frames : Nat}

/-- If one watch stops a run of a body nowhere, neither does one that tells of less. -/
theorem body_of_quiet
    {first second : Watch}
    (fewer : ∀ path heap, first path heap = false → second path heap = false) {alarm : Fault}
    (quiet : ∀ after, (body (watched first alarm frames []) site forms).perform heap ≠
      (.error alarm, after)) (other : Fault) :
    (body (watched second other frames []) site forms).perform heap =
      (body (watched first alarm frames []) site forms).perform heap :=
  (bodyFrom_of_alarm (Regime.anything_governs fewer) frames (Bounds.heapWithin_anything heap)
    (fun _ _ => Bounds.taskWithin_anything _) (fun _ _ => trivial) other quiet).1

/-- A watch that tells of less is avoided, too. -/
theorem BodyAvoids.mono
    {first second : Watch} (avoids : BodyAvoids first site forms heap)
    (fewer : ∀ path heap, first path heap = false → second path heap = false) :
    BodyAvoids second site forms heap := by
  intro frames other
  obtain ⟨alarm, quiet⟩ := Regime.exists_alarm ((body (solve frames) site forms).perform heap)
  have same := avoids frames alarm
  rw [← same] at quiet ⊢
  exact body_of_quiet fewer quiet other

/-- Where all closures are those of the evaluator, a body avoids everything because of
which it might not settle. -/
theorem BodyAvoids.of_outside
    {bounds : Bounds} (reaches : ReachesOwn bounds site forms heap)
    (avoids : BodyAvoids outside site forms heap) :
    BodyAvoids (unsettled (heap.maxDepth site.evaluator) heap.stores.size) site forms heap := by
  have governs := @ownDepths_governs bounds site.evaluator heap.stores.size
    (heap.maxDepth site.evaluator) reaches.only reaches.stores reaches.unnumbered reaches.total
    reaches.losable reaches.escapes
  intro frames other
  obtain ⟨alarm, quiet⟩ := Regime.exists_alarm ((body (solve frames) site forms).perform heap)
  have same := avoids frames alarm
  rw [← same] at quiet ⊢
  refine (bodyFrom_of_alarm governs frames reaches.within reaches.forms (fun item _ => ?_) other
    quiet).1
  exact ⟨reaches.evaluatorKnown, rfl, fun _ _ isForm => nomatch isForm⟩

/-- A body that avoids all that ends in one way, and nests only so deep. -/
theorem BodyAvoids.ends
    {limit : Int} {count : Nat} (avoids : BodyAvoids (unsettled limit count) site forms heap) :
    ∃ bound, BodyAvoids (nestsBeyond bound) site forms heap ∧
      ∀ frames, bound ≤ frames → (body (solve frames) site forms).perform heap =
        (body (solve bound) site forms).perform heap := by
  have formsSettle (alarm : Fault) : FormsSettle
      (fun frames cut => guarded (unsettled limit count) alarm frames cut [])
      site.evaluator site.depth := fun scope item =>
    settles_evaluate limit count alarm [] site.evaluator scope item site.depth
  have settles (alarm : Fault) : SettlesAt (fun frames cut =>
      body (guarded (unsettled limit count) alarm frames cut []) site forms) heap :=
    settles_body (formsSettle alarm) forms heap
  have solved (alarm : Fault) (frames : Nat) :
      (body (guarded (unsettled limit count) alarm frames (.failed .stackExhausted) [])
        site forms).perform heap = (body (solve frames) site forms).perform heap := by
    rw [← watched_eq_guarded]
    exact avoids frames alarm
  -- the outcome, and an alarm that is told apart from it
  obtain ⟨outcome, enough, ends⟩ := settles (.malformed "")
  obtain ⟨alarm, quiet⟩ := Regime.exists_alarm outcome
  obtain ⟨same, bound, endsToo⟩ := settles alarm
  have isOutcome : same = outcome := by
    have one := ends (max enough bound) (Nat.le_max_left _ _) (.failed .stackExhausted)
    have other := endsToo (max enough bound) (Nat.le_max_right _ _) (.failed .stackExhausted)
    rw [solved] at one other
    exact other.symm.trans one
  subst isOutcome
  have isSolved (frames : Nat) (above : bound ≤ frames) :
      (body (solve frames) site forms).perform heap = same := by
    rw [← solved alarm]
    exact endsToo frames above _
  refine ⟨bound, fun frames other => ?_, fun frames above => ?_⟩
  · by_cases inBound : frames ≤ bound
    · rw [watched_of_inBound (by simpa using inBound)]
    · have above := Nat.lt_of_not_le inBound
      have cutOff : (body (watched ((unsettled limit count).or (nestsBeyond bound)) alarm
          frames []) site forms).perform heap = same := by
        rw [watched_nestsBeyond (Nat.zero_add bound) above]
        exact endsToo bound (Nat.le_refl bound) alarm
      rw [isSolved frames (Nat.le_of_lt above), ← cutOff]
      refine body_of_quiet (fun path after unmet => ?_) (fun after => ?_) other
      · exact (Bool.or_eq_false_iff.mp unmet).2
      · rw [cutOff]
        exact quiet after
  · rw [isSolved frames above, isSolved bound (Nat.le_refl bound)]

end Bodies

/-! ## Runs that look out for something

To tell that a body avoids something, it is enough to look at its runs with few frames and
at one with enough of them. -/

/-- Whether a run of a body with some frames is stopped by a watch. -/
def isStopped (watch : Watch) (frames : Nat) (site : Site) (forms : List Value) (heap : Heap) :
    Bool :=
  match ((body (watched watch (.malformed "") frames []) site forms).perform heap).1 with
  | .error (.malformed "") => true
  | _ => false

theorem body_of_notStopped
    {watch : Watch} {site : Site} {forms : List Value} {heap : Heap} {frames : Nat}
    (notStopped : isStopped watch frames site forms heap = false)
    {fewer : Watch} (tells : ∀ path heap, watch path heap = false → fewer path heap = false)
    (other : Fault) :
    (body (watched fewer other frames []) site forms).perform heap =
      (body (solve frames) site forms).perform heap := by
  have quiet (after : Heap) : (body (watched watch (.malformed "") frames []) site forms).perform
      heap ≠ (.error (.malformed ""), after) := by
    intro stopped
    rw [isStopped, stopped] at notStopped
    cases notStopped
  have unwatched := @body_of_quiet site forms heap frames watch .never (fun _ _ _ => rfl) _
    quiet other
  rw [watched_never] at unwatched
  exact (body_of_quiet tells quiet other).trans unwatched.symm

/-- Whether a watch stops none of the runs of a body with few frames, and none of those with
more, which do not nest beyond a bound. -/
def staysQuiet (watch : Watch) (bound : Nat) (site : Site) (forms : List Value) (heap : Heap) :
    Bool :=
  (List.range (bound + 1)).all (fun frames => !isStopped watch frames site forms heap) &&
    !isStopped (watch.or (nestsBeyond bound)) (bound + 1) site forms heap

theorem BodyAvoids.of_staysQuiet
    {watch : Watch} (bound : Nat) {site : Site} {forms : List Value} {heap : Heap}
    (quiet : staysQuiet watch bound site forms heap = true) :
    BodyAvoids watch site forms heap := by
  obtain ⟨few, enough⟩ := Bool.and_eq_true_iff.mp quiet
  intro frames other
  by_cases inBound : frames ≤ bound
  · have notStopped :=
      List.all_eq_true.mp few frames (List.mem_range.mpr (Nat.lt_succ_of_le inBound))
    exact body_of_notStopped (Bool.not_eq_eq_eq_not.mp notStopped) (fun _ _ unmet => unmet) other
  · have above := Nat.lt_of_not_le inBound
    -- with more frames than the bound, the run is the same
    have same : watched (watch.or (nestsBeyond bound)) (.malformed "") frames [] =
        watched (watch.or (nestsBeyond bound)) (.malformed "") (bound + 1) [] := by
      rw [watched_nestsBeyond (Nat.zero_add bound) above,
        watched_nestsBeyond (Nat.zero_add bound) (Nat.lt_succ_self bound)]
    have notStopped : isStopped (watch.or (nestsBeyond bound)) frames site forms heap = false := by
      rw [isStopped, same]
      exact Bool.not_eq_eq_eq_not.mp enough
    exact body_of_notStopped notStopped (fun _ _ unmet => (Bool.or_eq_false_iff.mp unmet).1) other

end Eval

/-! ## A heap with a store -/

namespace Ending

/-- The functions that are built in, and a store. -/
def stockedVars : ValueEntries :=
  (.str "locals", .store 0) :: Builtin.table.map fun entry => (.str entry.1, .builtin entry.2)

/-- A heap with an evaluator, a store with some entries, and a scope. -/
def stocked (limit : Int) (entries : ValueEntries) : Heap :=
  let evaluating := (Heap.empty.openEvaluator { maxDepth := limit }).2
  let storing := (evaluating.openStore "locals" entries).2
  ((storing.openTable stockedVars).2.openScope (.table 1) none).2

/-- All that belongs to the first evaluator and the first store. -/
def onlyFirst : Bounds :=
  { Bounds.anything with evaluators := (· = 0), stores := (· = 0) }

theorem reachesOwn_stocked
    (limit depth : Int) {entries : ValueEntries} {forms : List Value}
    (entriesWithin : EntriesWithin onlyFirst entries) (formsWithin : AllWithin onlyFirst forms) :
    ReachesOwn onlyFirst ⟨0, 0, depth⟩ forms (stocked limit entries) where
  within := by
    have empty : (Heap.empty.openEvaluator { maxDepth := limit }).2.Within onlyFirst :=
      { Heap.within_empty onlyFirst (fun _ => trivial) (fun _ => trivial) (fun _ => trivial)
          fun _ _ => trivial with }
    have varsWithin : EntriesWithin onlyFirst stockedVars := by
      refine ⟨⟨trivial, rfl⟩, entriesWithin_iff.mpr fun entry member => ?_⟩
      obtain ⟨named, -, rfl⟩ := List.mem_map.mp member
      exact ⟨trivial, trivial⟩
    have opened := ((empty.openStore "locals" entriesWithin).openTable varsWithin).within
    have isTable : (Variables.table 1).Within onlyFirst := trivial
    have inside := opened.openScope isTable fun id (isParent : none = some id) => nomatch isParent
    exact inside.2.within
  formsWithin := formsWithin
  scope := trivial
  evaluator := rfl
  only _ isFirst := isFirst
  stores _ isFirst := isFirst ▸ Nat.zero_lt_one
  evaluatorKnown := Nat.zero_lt_one
  unnumbered := Bounds.lists_anything 0
  total _ := trivial
  losable _ := trivial
  escapes := trivial

/-! ## Bodies end -/

/-- `(reduce (fn add [a b] (apply + [a b])) 0 locals)` -/
def addedUp : List Value :=
  let pair := Value.vector [.symbol "a", .symbol "b"] 0
  let sum := Value.list [.symbol "apply", .symbol "+", pair] 0
  let add := Value.list [.symbol "fn", .symbol "add", pair, sum] 0
  [.list [.symbol "reduce", add, .int 0, .symbol "locals"] 0]

/-- A heap with a store of two numbers. -/
def twoNumbers : Heap := stocked 20 [(.int 1, .nil), (.int 2, .nil)]

/-- A heap with a store whose keys are `apply` and the store itself. -/
def selfHolding : Heap := stocked 200 [(.builtin .apply, .int 1), (.store 0, .int 1)]

/-- `(apply apply locals)` -/
def applied : Value := .list [.symbol "apply", .symbol "apply", .symbol "locals"] 0

/-- The call that the form makes, and that this call makes again. -/
def again : Task := .call (.builtin .apply) [.builtin .apply, .store 0]

/-- What a form and a call come to that ask for themselves again. -/
theorem step_applied
    {worker : Worker} {cut : Fault}
    (isApply : (worker (.evaluate 0 0 (.symbol "apply") 1)).perform selfHolding =
      (.ok (.builtin .apply), selfHolding))
    (isStore : (worker (.evaluate 0 0 (.symbol "locals") 1)).perform selfHolding =
      (.ok (.store 0), selfHolding))
    (isCut : (worker again).perform (selfHolding.setHostDepth 0 1) =
      (.error cut, selfHolding.setHostDepth 0 1)) :
    (step worker (.evaluate 0 0 applied 0)).perform selfHolding = (.error cut, selfHolding) := by
  have last : (items worker ⟨0, 0, 1⟩ [.symbol "locals"]).perform selfHolding =
      (.ok [.store 0], selfHolding) :=
    (Action.perform_bind_ok isStore).trans rfl
  have given : (items worker ⟨0, 0, 1⟩ [.symbol "apply", .symbol "locals"]).perform
      selfHolding = (.ok [.builtin .apply, .store 0], selfHolding) :=
    (Action.perform_bind_ok isApply).trans ((Action.perform_bind_ok last).trans rfl)
  change (combination worker ⟨0, 0, 1⟩ 0 (.symbol "apply")
    [.symbol "apply", .symbol "locals"]).perform selfHolding = _
  refine (Action.perform_bind_ok isApply).trans ?_
  refine (Action.perform_bind_ok given).trans ?_
  change (callHost worker ⟨0, 0, 1⟩ (.builtin .apply) [.builtin .apply, .store 0]).perform
    selfHolding = _
  rw [callHost, Action.perform_atHostDepth]
  let ended := (worker again).perform (selfHolding.setHostDepth 0 1)
  change (ended.1, ended.2.setHostDepth 0 (selfHolding.hostDepth 0)) = _
  rw [show ended = _ from isCut]
  rfl

section Again

variable {watch : Watch}

theorem perform_again
    (unmet : ∀ around, watch (again :: around) (selfHolding.setHostDepth 0 1) = false)
    (alarm : Fault) (frames : Nat) (cut : Fault) (around : List Task) :
    (guarded watch alarm frames cut around again).perform (selfHolding.setHostDepth 0 1) =
      (.error cut, selfHolding.setHostDepth 0 1) := by
  induction frames generalizing around with
  | zero => rfl
  | succ frames inductionHypothesis =>
      rw [perform_guarded_succ, unmet, if_neg Bool.false_ne_true]
      exact inductionHypothesis (again :: around)

theorem perform_applied
    (unmet : ∀ item depth around,
      watch (.evaluate 0 0 item depth :: around) selfHolding = false)
    (unmetAgain : ∀ around, watch (again :: around) (selfHolding.setHostDepth 0 1) = false)
    (alarm : Fault) (frames : Nat) (cut : Fault) :
    (body (guarded watch alarm frames cut []) ⟨0, 0, 0⟩ [applied]).perform selfHolding =
      (.error cut, selfHolding) := by
  refine Action.perform_bind_error ?_
  change (guarded watch alarm frames cut [] (.evaluate 0 0 applied 0)).perform selfHolding = _
  match frames with
  | 0 => rfl
  | 1 =>
      rw [perform_guarded_succ, unmet, if_neg Bool.false_ne_true]
      rfl
  | frames + 2 =>
      let path := [Task.evaluate 0 0 applied 0]
      have evaluated (item : Value) :
          (guarded watch alarm (frames + 1) cut path (.evaluate 0 0 item 1)).perform selfHolding =
            (step (guarded watch alarm frames cut (.evaluate 0 0 item 1 :: path))
              (.evaluate 0 0 item 1)).perform selfHolding := by
        rw [perform_guarded_succ, unmet, if_neg Bool.false_ne_true]
      rw [perform_guarded_succ, unmet, if_neg Bool.false_ne_true]
      exact step_applied ((evaluated (.symbol "apply")).trans rfl)
        ((evaluated (.symbol "locals")).trans rfl)
        (perform_again unmetAgain alarm (frames + 1) cut path)

end Again

end Ending

end CueScript
