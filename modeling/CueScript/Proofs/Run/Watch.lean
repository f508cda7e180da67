import CueScript.Proofs.Run.Evaluation

/-!
# Watching over a run

A watch looks at what is under way each time a piece of work begins.  `NeverMeets` says
that there is nothing it would tell of in a whole run.

An invariant of what is under way is given as a `Regime`.  If one watch never meets
anything and the regime shows that what the other one looks out for comes only after
that, the other one never meets anything, either, and the run keeps to the bounds of the
regime.
-/

namespace CueScript

/-- What to look out for.  A watch is told which pieces of work are under way, the one
that begins first, and sees the heap. -/
abbrev Watch := List Task → Heap → Bool

/-- There is nothing to look out for. -/
def Watch.never : Watch := fun _ _ => false

/-- To look out for what one of two watches does. -/
def Watch.or (first second : Watch) : Watch := fun path heap => first path heap || second path heap

theorem Watch.never_or (watch : Watch) : Watch.never.or watch = watch := by
  funext path heap
  exact Bool.false_or _

/-- A member of a closure or of an evaluator is called. -/
def isReflective : Watch
  | .call function _ :: _, _ => function.isReflection
  | _, _ => false

/-- Whether a value is an event. -/
def Value.isEvent : Value → Bool
  | .event .. => true
  | _ => false

/-- A member is read of a value that is no event, or an operation of a closure, a scope
or an evaluator is called. -/
def leavesEvents : Watch
  | .read value _ :: _, _ => !value.isEvent
  | .call (.member (.closure ..) _) _ :: _, _ => true
  | .call (.member (.scope _) _) _ :: _, _ => true
  | .call (.member (.evaluator _) _) _ :: _, _ => true
  | _, _ => false

theorem not_isReflection
    {function : Value} {args : List Value} {around : List Task} {heap : Heap}
    (unmet : isReflective (.call function args :: around) heap = false) :
    function.isReflection ≠ true :=
  ne_true_of_eq_false unmet

namespace Eval

/-- Do a piece of work inside of others, but stop with an alarm as soon as the watch tells
of something. -/
def watched (watch : Watch) (alarm : Fault) : (frames : Nat) → (around : List Task) → Worker
  | 0, _ => fun _ => Action.fail .stackExhausted
  | frames + 1, around => fun task => do
      if watch (task :: around) (← get) then
        throw alarm
      else
        step (watched watch alarm frames (task :: around)) task

/-- Whether a run never meets what a watch looks out for: with whatever alarm it would
stop, it goes on as it does without the watch. -/
def NeverMeets (watch : Watch) (task : Task) (heap : Heap) : Prop :=
  ∀ alarm, (watched watch alarm frameLimit [] task).perform heap = (perform task).perform heap

theorem perform_watched_succ
    (watch : Watch) (alarm : Fault) (frames : Nat) (around : List Task) (task : Task)
    (heap : Heap) :
    (watched watch alarm (frames + 1) around task).perform heap =
      if watch (task :: around) heap then
        (.error alarm, heap)
      else
        (step (watched watch alarm frames (task :: around)) task).perform heap := by
  rw [watched, Action.perform_get_bind]
  split
  · exact Action.perform_throw alarm heap
  · rfl

theorem watched_never (alarm : Fault) (frames : Nat) (around : List Task) :
    watched .never alarm frames around = solve frames := by
  induction frames generalizing around with
  | zero => rfl
  | succ frames inductionHypothesis =>
      funext task
      rw [solve, ← inductionHypothesis (task :: around)]
      rfl

/-- Inside of work for which there is nothing to look out for, a watch changes nothing. -/
theorem watched_of_unmet
    {watch : Watch} (alarm : Fault) (frames : Nat) {around : List Task} {task : Task}
    (unmet : ∀ inner heap, watch (inner ++ task :: around) heap = false) :
    watched watch alarm frames around task = solve frames task := by
  induction frames generalizing around task with
  | zero => rfl
  | succ frames inductionHypothesis =>
      have inside : watched watch alarm frames (task :: around) = solve frames := by
        funext sub
        refine inductionHypothesis fun inner heap => ?_
        rw [List.append_cons]
        exact unmet (inner ++ [sub]) heap
      funext heap
      refine (perform_watched_succ watch alarm frames around task heap).trans ?_
      rw [show watch (task :: around) heap = false from unmet [] heap, if_neg Bool.false_ne_true,
        inside]
      rfl

end Eval

/-- What is known of everything that is under way in a run. -/
structure Regime where
  bounds : Bounds
  /-- Whether special forms of the wrong shape may be met. -/
  misshapen : Prop
  /-- What holds of a piece of work inside of others, with some evaluators. -/
  legal : Array EvaluatorState → List Task → Task → Prop

namespace Regime

open Eval

/-- What a run with a watch and another run of the same keep to. -/
def pact (regime : Regime) (alarm : Fault) (evaluators : Array EvaluatorState) : Pact where
  bounds := regime.bounds
  evaluators _ := evaluators
  misshapen := regime.misshapen
  cut
    | .left, fault => fault = alarm
    | .right, _ => False

/-- Where the first watch tells of nothing, the second one does not, either, and what is
asked for next is legal, too. -/
structure Governs (regime : Regime) (first second : Watch) : Prop where
  grammar : regime.bounds.Grammar regime.misshapen
  spared : ∀ (evaluators : Array EvaluatorState) (around : List Task) (task : Task)
    (heap : Heap), regime.legal evaluators around task → task.Within regime.bounds →
      heap.Within regime.bounds → first (task :: around) (heap.equip evaluators) = false →
        second (task :: around) (heap.equip evaluators) = false ∧ task.Ready regime.bounds
  kept : ∀ (alarm : Fault) (evaluators : Array EvaluatorState) (around : List Task)
    (task : Task) (heap : Heap) (further : Pact) (sub : Task),
      regime.legal evaluators around task → task.Within regime.bounds →
        heap.Within regime.bounds → first (task :: around) (heap.equip evaluators) = false →
          task.Asks (regime.pact alarm evaluators) further sub → sub.Within regime.bounds →
            regime.legal (further.evaluators .left) (task :: around) sub

variable {regime : Regime} {first second : Watch}

/-- Two runs with a watch each. -/
def runs (first second : Watch) (alarm other : Fault) (frames : Nat) (around : List Task) :
    Side → Worker
  | .left => watched first alarm frames around
  | .right => watched second other frames around

/-- The pact of a run changes only in its evaluators. -/
theorem pact_of_asks
    {alarm : Fault} {evaluators : Array EvaluatorState} {task sub : Task} {further : Pact}
    (asks : task.Asks (regime.pact alarm evaluators) further sub) :
    further = regime.pact alarm (further.evaluators .left) := by
  cases asks with
  | reflection function args isReflection further sub side =>
      rcases side with rfl | ⟨evaluator, depth, rfl⟩
      · rfl
      · rfl
  | _ => rfl

theorem agree_runs
    (governs : regime.Governs first second) (alarm other : Fault) (frames : Nat)
    {evaluators : Array EvaluatorState} {around : List Task} {task : Task}
    (legal : regime.legal evaluators around task)
    (within : task.Within regime.bounds) :
    Agree (regime.pact alarm evaluators) (task.Gives (regime.pact alarm evaluators))
      fun side => runs first second alarm other frames around side task := by
  induction frames generalizing evaluators around task with
  | zero =>
      intro heap heapWithin
      exact Agree.fail heap heapWithin
  | succ frames inductionHypothesis =>
      intro heap heapWithin
      change Ends _ _ heap
        ((watched first alarm (frames + 1) around task).perform (heap.equip evaluators))
        ((watched second other (frames + 1) around task).perform (heap.equip evaluators))
      cases met : first (task :: around) (heap.equip evaluators) with
      | true =>
          rw [perform_watched_succ first, met, if_pos rfl]
          exact .cutLeft alarm _ _ rfl
      | false =>
          obtain ⟨notMet, ready⟩ :=
            governs.spared evaluators around task heap legal within heapWithin met
          have balanced : (regime.pact alarm evaluators).Balanced :=
            ⟨fun _ _ _ => rfl, fun _ _ _ => rfl⟩
          have stepped : Agree (regime.pact alarm evaluators)
              (task.Gives (regime.pact alarm evaluators)) fun side =>
                step (runs first second alarm other frames (task :: around) side) task := by
            refine agree_step governs.grammar balanced within ready ?_
            intro further sub asks subWithin
            have subLegal := governs.kept alarm evaluators around task heap further sub legal
              within heapWithin met asks subWithin
            have same := pact_of_asks asks
            generalize further.evaluators .left = others at same subLegal
            subst same
            exact inductionHypothesis subLegal subWithin
          rw [perform_watched_succ first, perform_watched_succ second, met, notMet]
          exact stepped heap heapWithin

/-- If a run meets nothing that the first watch looks out for, the second one does not
stop it, either, and it keeps to the bounds. -/
theorem run_of_alarm
    (governs : regime.Governs first second)
    {around : List Task} {task : Task} {heap : Heap} {alarm : Fault} (frames : Nat)
    (heapWithin : heap.Within regime.bounds)
    (within : task.Within regime.bounds)
    (legal : regime.legal heap.evaluators around task)
    (quiet : ∀ after,
      (watched first alarm frames around task).perform heap ≠ (.error alarm, after))
    (other : Fault) :
    (watched second other frames around task).perform heap =
        (watched first alarm frames around task).perform heap ∧
      (watched first alarm frames around task).Keeps regime.bounds (Value.Within regime.bounds)
        heap ∧
      ∀ text after, (watched first alarm frames around task).perform heap =
        (.error (.malformed text), after) → regime.misshapen := by
  have ends : Ends (regime.pact alarm heap.evaluators)
      (task.Gives (regime.pact alarm heap.evaluators)) heap
      ((watched first alarm frames around task).perform heap)
      ((watched second other frames around task).perform heap) :=
    agree_runs governs alarm other frames legal within heap heapWithin
  have keeps (outcome : Except Fault Value) (after : Heap)
      (ending : (watched first alarm frames around task).perform heap =
        (outcome, after.equip heap.evaluators))
      (becomes : Heap.Becomes regime.bounds heap after)
      (value : ∀ value, outcome = .ok value → value.Within regime.bounds) :
      (watched first alarm frames around task).Keeps regime.bounds (Value.Within regime.bounds)
        heap := by
    constructor
    · rw [ending]
      rfl
    · rw [ending]
      exact becomes.equip heap.evaluators
    · rw [ending]
      exact value
  generalize (watched second other frames around task).perform heap = right at ends ⊢
  generalize ending : (watched first alarm frames around task).perform heap = left at ends ⊢
  cases ends with
  | value result after becomes fits =>
      refine ⟨rfl, keeps _ after ending becomes ?_, fun _ _ same => nomatch same⟩
      rintro _ ⟨⟩
      cases task with
      | evaluate => exact fits.1
      | _ => exact fits
  | fault fault after becomes allowed =>
      refine ⟨rfl, keeps _ after ending becomes (fun _ same => nomatch same), ?_⟩
      rintro text _ ⟨⟩
      exact allowed
  | cutLeft fault after other isCut =>
      cases isCut
      exact absurd ending (quiet after)
  | cutRight fault after other isCut => exact isCut.elim

/-! ## Runs without an alarm -/

/-- There is a fault that a run does not end with. -/
theorem exists_alarm (ending : Except Fault Value × Heap) :
    ∃ alarm : Fault, ∀ after, ending ≠ (.error alarm, after) := by
  obtain ⟨outcome, heap⟩ := ending
  by_cases isMalformed : outcome = .error (.malformed "")
  · refine ⟨.unbound "", fun after same => ?_⟩
    rw [isMalformed] at same
    cases same
  · refine ⟨.malformed "", fun after same => ?_⟩
    cases same
    exact isMalformed rfl

theorem run_of_never
    (governs : regime.Governs first second)
    {task : Task} {heap : Heap}
    (heapWithin : heap.Within regime.bounds)
    (within : task.Within regime.bounds)
    (legal : regime.legal heap.evaluators [] task)
    (never : NeverMeets first task heap) :
    NeverMeets second task heap ∧
      (perform task).Keeps regime.bounds (Value.Within regime.bounds) heap ∧
      ∀ text after, (perform task).perform heap = (.error (.malformed text), after) →
        regime.misshapen := by
  obtain ⟨alarm, quiet⟩ := exists_alarm ((perform task).perform heap)
  have same := never alarm
  rw [← same] at quiet
  have runs (other : Fault) :=
    run_of_alarm governs frameLimit heapWithin within legal quiet other
  rw [same] at runs
  obtain ⟨-, keeps, fault⟩ := runs alarm
  exact ⟨fun other => (runs other).1, keeps.congr same, fault⟩

end Regime

/-! ## Runs without bounds -/

namespace Bounds

/-- Everything may be met. -/
def anything : Bounds where
  stores _ := True
  scopes _ := True
  evaluators _ := True
  tables _ := True
  births _ := True
  losable _ := True
  code _ := True

theorem lists_anything (birth : Nat) (items : List Value) : anything.Lists birth items :=
  ⟨trivial, fun _ _ => trivial⟩

mutual

theorem within_anything (value : Value) : value.Within anything := by
  cases value with
  | list items birth => exact ⟨lists_anything birth items, allWithin_anything items⟩
  | vector items birth => exact ⟨lists_anything birth items, allWithin_anything items⟩
  | quoted form => exact within_anything form
  | tuple items => exact allWithin_anything items
  | map entries birth => exact ⟨trivial, entriesWithin_anything entries⟩
  | closure id name params rest body inside owner =>
      exact ⟨allWithin_anything body, fun _ _ => trivial, trivial, trivial, trivial⟩
  | event id origin members => exact membersWithin_anything members
  | method id result => exact within_anything result
  | member receiver name => exact within_anything receiver
  | scope id => exact ⟨trivial, trivial⟩
  | evaluator id => exact ⟨trivial, trivial⟩
  | _ => exact trivial

theorem allWithin_anything (items : List Value) : Value.AllWithin anything items := by
  cases items with
  | nil => exact trivial
  | cons item rest => exact ⟨within_anything item, allWithin_anything rest⟩

theorem entriesWithin_anything (entries : List (Value × Value)) :
    Value.EntriesWithin anything entries := by
  cases entries with
  | nil => exact trivial
  | cons entry rest => exact ⟨entryWithin_anything entry, entriesWithin_anything rest⟩

theorem entryWithin_anything (entry : Value × Value) : Value.EntryWithin anything entry := by
  cases entry with
  | mk key value => exact ⟨within_anything key, within_anything value⟩

theorem membersWithin_anything (members : List (String × Value)) :
    Value.MembersWithin anything members := by
  cases members with
  | nil => exact trivial
  | cons first rest => exact ⟨memberWithin_anything first, membersWithin_anything rest⟩

theorem memberWithin_anything (first : String × Value) :
    Value.MemberWithin anything first := by
  cases first with
  | mk name value => exact within_anything value

end

theorem heapWithin_anything (heap : Heap) : heap.Within anything where
  tables _ entries _ _ := entriesWithin_anything entries
  stores _ _ _ _ := trivial
  scopes _ scope _ _ := by
    refine ⟨?_, fun _ _ => trivial⟩
    cases scope.vars with
    | table id => exact trivial
    | inside holder => exact within_anything holder
    | absent given => exact within_anything given
  views _ _ := Iff.rfl
  losses _ left _ _ := ⟨trivial, allWithin_anything left⟩
  kept _ _ _ _ _ _ := trivial
  freshTables _ _ := trivial
  freshScopes _ _ := trivial
  freshBirths _ _ := trivial
  freshContents _ _ _ := trivial

theorem taskWithin_anything (task : Task) : task.Within anything := by
  cases task with
  | evaluate owner inside item depth => exact ⟨trivial, trivial, within_anything item, trivial⟩
  | read value name => exact within_anything value
  | enter function args depth => exact ⟨within_anything function, allWithin_anything args⟩
  | call function args => exact ⟨within_anything function, allWithin_anything args⟩

/-- All forms are closed under evaluation. -/
theorem grammar_of_total
    {bounds : Bounds}
    (unnumbered : ∀ items, bounds.Lists 0 items) (total : ∀ item, bounds.code item)
    (escapes : bounds.escapes) :
    bounds.Grammar True where
  unnumbered := unnumbered
  current _ _ _ _ := total _
  vector _ _ _ _ _ := total _
  combination _ _ _ _ _ := ⟨total _, fun _ _ => total _⟩
  special _ _ _ _ _ isForm :=
    SpecialForm.ofForm_all (fun _ _ _ => trivial) (fun _ _ _ _ _ _ _ => total _)
      (fun _ _ _ => total _) isForm
  function _ _ _ _ _ _ _ _ _ := escapes
  fault _ _ _ _ _ _ := trivial
  ordinary _ _ _ _ _ _ _ := total _
  expansion _ _ _ _ _ _ _ := total _
  lost _ _ _ _ _ _ _ _ _ := total _

end Bounds

namespace Regime

/-- Everything may be under way that is within some bounds. -/
def loose (bounds : Bounds) : Regime := ⟨bounds, True, fun _ _ _ => True⟩

/-- A watch may be left for one that tells of less. -/
theorem loose_governs
    {bounds : Bounds} {first second : Watch}
    (unnumbered : ∀ items, bounds.Lists 0 items)
    (total : ∀ item, bounds.code item) (losable : ∀ birth, bounds.losable birth)
    (escapes : bounds.escapes)
    (fewer : ∀ path heap, first path heap = false → second path heap = false) :
    (loose bounds).Governs first second where
  grammar := Bounds.grammar_of_total unnumbered total escapes
  spared _ _ task _ _ _ _ unmet := ⟨fewer _ _ unmet, task.ready_of_total total losable⟩
  kept _ _ _ _ _ _ _ _ _ _ _ _ _ := trivial

theorem anything_governs
    {first second : Watch}
    (fewer : ∀ path heap, first path heap = false → second path heap = false) :
    (loose .anything).Governs first second :=
  loose_governs (Bounds.lists_anything 0) (fun _ => trivial) (fun _ => trivial) trivial fewer

end Regime

namespace Eval

/-- A run that a watch does not stop is as if there were no watch. -/
theorem watched_of_quiet
    {watch : Watch} {alarm : Fault} {frames : Nat} {around : List Task} {task : Task}
    {heap : Heap}
    (quiet : ∀ after,
      (watched watch alarm frames around task).perform heap ≠ (.error alarm, after)) :
    (watched watch alarm frames around task).perform heap = (solve frames task).perform heap := by
  have governs := @Regime.anything_governs watch .never fun _ _ _ => rfl
  have run := (Regime.run_of_alarm governs frames (Bounds.heapWithin_anything heap)
    (Bounds.taskWithin_anything task) trivial quiet alarm).1
  rw [watched_never] at run
  exact run.symm

/-- One run that is not stopped tells that a watch never meets anything. -/
theorem NeverMeets.of_quiet
    {watch : Watch} {task : Task} {heap : Heap} {alarm : Fault}
    (quiet : ∀ after,
      (watched watch alarm frameLimit [] task).perform heap ≠ (.error alarm, after)) :
    NeverMeets watch task heap := by
  have governs := @Regime.anything_governs watch watch fun _ _ unmet => unmet
  intro other
  have watchedToo := (Regime.run_of_alarm governs frameLimit (Bounds.heapWithin_anything heap)
    (Bounds.taskWithin_anything task) trivial quiet other).1
  exact watchedToo.trans (watched_of_quiet quiet)

/-- One run that gives a value tells that a watch never meets anything. -/
theorem NeverMeets.of_isOk
    {watch : Watch} {task : Task} {heap : Heap} {alarm : Fault}
    (isOk : ((watched watch alarm frameLimit [] task).perform heap).1.isOk = true) :
    NeverMeets watch task heap := by
  refine @NeverMeets.of_quiet _ _ _ alarm fun after stopped => ?_
  rw [stopped] at isOk
  cases isOk

/-- A run keeps to bounds within which all forms may be evaluated and all lists may lose
items, however many frames it may nest. -/
theorem solve_keeps
    (frames : Nat) {bounds : Bounds} {task : Task} {heap : Heap}
    (unnumbered : ∀ items, bounds.Lists 0 items)
    (total : ∀ item, bounds.code item) (losable : ∀ birth, bounds.losable birth)
    (escapes : bounds.escapes)
    (heapWithin : heap.Within bounds) (within : task.Within bounds) :
    (solve frames task).Keeps bounds (Value.Within bounds) heap := by
  have governs := @Regime.loose_governs bounds .never .never unnumbered total losable escapes
    fun _ _ _ => rfl
  obtain ⟨unseen, quiet⟩ := Regime.exists_alarm ((solve frames task).perform heap)
  rw [← watched_never unseen frames []] at quiet
  have run := Regime.run_of_alarm governs frames heapWithin within trivial quiet unseen
  rw [watched_never] at run
  exact run.2.1

theorem perform_keeps
    {bounds : Bounds} {task : Task} {heap : Heap}
    (unnumbered : ∀ items, bounds.Lists 0 items)
    (total : ∀ item, bounds.code item) (losable : ∀ birth, bounds.losable birth)
    (escapes : bounds.escapes)
    (heapWithin : heap.Within bounds) (within : task.Within bounds) :
    (perform task).Keeps bounds (Value.Within bounds) heap :=
  solve_keeps frameLimit unnumbered total losable escapes heapWithin within

/-! ## Bodies -/

/-- Whether an action, unless it ends with the alarm, keeps to bounds, and another one does
the same. -/
def SameUnless {α : Type} (alarm : Fault) (bounds : Bounds) (post : α → Prop)
    (action other : Action α) (heap : Heap) : Prop :=
  (∀ after, action.perform heap ≠ (.error alarm, after)) →
    other.perform heap = action.perform heap ∧ action.Keeps bounds post heap

theorem SameUnless.bind
    {α β : Type} {alarm : Fault} {bounds : Bounds} {middle : α → Prop} {post : β → Prop}
    {first other : Action α} {next later : α → Action β} {heap : Heap}
    (head : SameUnless alarm bounds middle first other heap)
    (tail : ∀ (value : α) (after : Heap), middle value → after.Within bounds →
      after.evaluators = heap.evaluators →
        SameUnless alarm bounds post (next value) (later value) after) :
    SameUnless alarm bounds post (first >>= next) (other >>= later) heap := by
  intro quiet
  obtain ⟨same, keeps⟩ := head fun after stopped =>
    quiet after (Action.perform_bind_error stopped)
  have tails (value : α) (after : Heap) (ran : first.perform heap = (.ok value, after))
      (fits : middle value) (within : after.Within bounds)
      (sameEvaluators : after.evaluators = heap.evaluators) :=
    tail value after fits within sameEvaluators fun final stopped =>
      quiet final ((Action.perform_bind_ok ran).trans stopped)
  refine ⟨?_, keeps.bind_of_ran fun value after ran fits within sameEvaluators =>
    (tails value after ran fits within sameEvaluators).2⟩
  obtain ⟨sameEvaluators, becomes, fits⟩ := keeps
  rcases ran : first.perform heap with ⟨fault | value, after⟩
  · rw [Action.perform_bind_error ran, Action.perform_bind_error (same.trans ran)]
  · rw [ran] at sameEvaluators becomes fits
    rw [Action.perform_bind_ok ran, Action.perform_bind_ok (same.trans ran)]
    exact (tails value after ran (fits value rfl) becomes.within sameEvaluators).1

section Alarm

variable {regime : Regime} {first second : Watch} {site : Site} {heap : Heap} {alarm : Fault}
  {around : List Task}

theorem form_of_alarm
    (governs : regime.Governs first second) (frames : Nat)
    (heapWithin : heap.Within regime.bounds) {item : Value}
    (within : (Task.evaluate site.evaluator site.scope item site.depth).Within regime.bounds)
    (legal : regime.legal heap.evaluators around
      (.evaluate site.evaluator site.scope item site.depth))
    (other : Fault) :
    SameUnless alarm regime.bounds (Value.Within regime.bounds)
      (form (watched first alarm frames around) site item)
      (form (watched second other frames around) site item) heap := by
  intro quiet
  obtain ⟨same, keeps, -⟩ :=
    Regime.run_of_alarm governs frames heapWithin within legal quiet other
  exact ⟨same, keeps⟩

/-- What is known of the run of one form holds of that of a body. -/
theorem bodyFrom_of_alarm
    (governs : regime.Governs first second) {result : Value} {forms : List Value}
    (frames : Nat)
    (heapWithin : heap.Within regime.bounds)
    (within : ∀ item ∈ forms,
      (Task.evaluate site.evaluator site.scope item site.depth).Within regime.bounds)
    (legal : ∀ item ∈ forms,
      regime.legal heap.evaluators around (.evaluate site.evaluator site.scope item site.depth))
    (other : Fault) :
    SameUnless alarm regime.bounds (fun _ => True)
      (bodyFrom (watched first alarm frames around) site result forms)
      (bodyFrom (watched second other frames around) site result forms) heap := by
  induction forms generalizing result heap with
  | nil => exact fun _ => ⟨rfl, .pure heapWithin trivial⟩
  | cons item rest inductionHypothesis =>
      refine (form_of_alarm governs frames heapWithin (within item List.mem_cons_self)
        (legal item List.mem_cons_self) other).bind ?_
      intro value after _ afterWithin sameEvaluators
      refine inductionHypothesis afterWithin
        (fun each member => within each (List.mem_cons_of_mem item member)) ?_
      rw [sameEvaluators]
      exact fun each member => legal each (List.mem_cons_of_mem item member)

/-- What is known of the run of one form holds of that of the body of a list, also if the
list has lost forms. -/
theorem bodyOf_of_alarm
    (governs : regime.Governs first second) {birth : Nat} {forms : List Value} (frames : Nat)
    (heapWithin : heap.Within regime.bounds) (inside : site.Within regime.bounds)
    (fit : ∀ item ∈ forms, item.Evaluable regime.bounds)
    (leftFits : ∀ (heap : Heap) (left : List Value), heap.Within regime.bounds →
      heap.left? birth = some left → ∀ item ∈ left, item.Evaluable regime.bounds)
    (legal : ∀ item,
      regime.legal heap.evaluators around (.evaluate site.evaluator site.scope item site.depth))
    (other : Fault) :
    SameUnless alarm regime.bounds (fun _ => True)
      (bodyOf (watched first alarm frames around) site birth forms)
      (bodyOf (watched second other frames around) site birth forms) heap := by
  have upcoming : Agree (.alone regime.bounds heap.evaluators)
      (fun items => ∀ item ∈ items, item.Evaluable regime.bounds) fun _ =>
        Action.upcoming birth 2 forms := .upcoming fit leftFits
  have comes : SameUnless alarm regime.bounds
      (fun items => ∀ item ∈ items, item.Evaluable regime.bounds)
      (Action.upcoming birth 2 forms) (Action.upcoming birth 2 forms) heap :=
    fun _ => ⟨rfl, upcoming.keeps heapWithin⟩
  refine comes.bind fun coming after comingFit afterWithin sameEvaluators => ?_
  refine bodyFrom_of_alarm governs frames afterWithin (fun item member => ?_) ?_ other
  · exact ⟨inside.evaluator, inside.scope, comingFit item member⟩
  · rw [sameEvaluators]
    exact fun item _ => legal item

/-- What is known of the run of one form holds of that of bindings. -/
theorem bindAll_of_alarm
    (governs : regime.Governs first second) {pairs : List (String × Value)} (frames : Nat)
    (heapWithin : heap.Within regime.bounds)
    (within : ∀ pair ∈ pairs,
      (Task.evaluate site.evaluator site.scope pair.2 site.depth).Within regime.bounds)
    (legal : ∀ pair ∈ pairs,
      regime.legal heap.evaluators around (.evaluate site.evaluator site.scope pair.2 site.depth))
    (other : Fault) :
    SameUnless alarm regime.bounds (fun _ => True)
      (bindAll (watched first alarm frames around) site pairs)
      (bindAll (watched second other frames around) site pairs) heap := by
  induction pairs generalizing heap with
  | nil => exact fun _ => ⟨rfl, .pure heapWithin trivial⟩
  | cons pair rest inductionHypothesis =>
      obtain ⟨name, item⟩ := pair
      have itemWithin := within (name, item) List.mem_cons_self
      refine (form_of_alarm governs frames heapWithin itemWithin
        (legal (name, item) List.mem_cons_self) other).bind ?_
      intro value after valueWithin afterWithin sameEvaluators
      have define : Agree (.alone regime.bounds after.evaluators) (fun _ => True) fun _ =>
          Action.define site.scope (.str name) value :=
        .define itemWithin.2.1 trivial valueWithin
      have defines : SameUnless alarm regime.bounds (fun _ => True)
          (Action.define site.scope (.str name) value)
          (Action.define site.scope (.str name) value) after :=
        fun _ => ⟨rfl, define.keeps afterWithin⟩
      refine defines.bind fun _ defined _ definedWithin sameStill => ?_
      refine inductionHypothesis definedWithin
        (fun each member => within each (List.mem_cons_of_mem _ member)) ?_
      rw [sameStill, sameEvaluators]
      exact fun each member => legal each (List.mem_cons_of_mem _ member)

variable {frames : Nat}

/-- A body that a watch does not stop is evaluated as if there were no watch. -/
theorem bodyFrom_of_quiet
    {result : Value} {forms : List Value}
    (quiet : ∀ after,
      (bodyFrom (watched first alarm frames around) site result forms).perform heap ≠
        (.error alarm, after)) :
    (bodyFrom (watched first alarm frames around) site result forms).perform heap =
      (bodyFrom (solve frames) site result forms).perform heap := by
  have governs := @Regime.anything_governs first .never fun _ _ _ => rfl
  have run := (bodyFrom_of_alarm governs frames (Bounds.heapWithin_anything heap)
    (fun _ _ => Bounds.taskWithin_anything _) (fun _ _ => trivial) alarm quiet).1
  rw [watched_never] at run
  exact run.symm

theorem bindAll_of_quiet
    {pairs : List (String × Value)}
    (quiet : ∀ after, (bindAll (watched first alarm frames around) site pairs).perform heap ≠
      (.error alarm, after)) :
    (bindAll (watched first alarm frames around) site pairs).perform heap =
      (bindAll (solve frames) site pairs).perform heap := by
  have governs := @Regime.anything_governs first .never fun _ _ _ => rfl
  have run := (bindAll_of_alarm governs frames (Bounds.heapWithin_anything heap)
    (fun _ _ => Bounds.taskWithin_anything _) (fun _ _ => trivial) alarm quiet).1
  rw [watched_never] at run
  exact run.symm

end Alarm

/-- A body keeps to bounds within which everything may be met. -/
theorem bodyFrom_keeps
    (frames : Nat) (site : Site) (result : Value) (forms : List Value) (heap : Heap) :
    (bodyFrom (solve frames) site result forms).Keeps .anything (fun _ => True) heap := by
  induction forms generalizing result heap with
  | nil => exact .pure (Bounds.heapWithin_anything heap) trivial
  | cons item rest inductionHypothesis =>
      have first := solve_keeps frames (Bounds.lists_anything 0) (fun _ => trivial)
        (fun _ => trivial) trivial (Bounds.heapWithin_anything heap)
        (Bounds.taskWithin_anything (.evaluate site.evaluator site.scope item site.depth))
      exact first.bind fun value after _ _ => inductionHypothesis value after

end Eval

end CueScript
