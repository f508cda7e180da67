import Mathlib.Data.Finset.Card
import CueScript.Proofs.Depth.Nesting
import CueScript.Proofs.Ending.Calls

/-!
# Evaluation settles

Evaluation goes deeper in three ways.  A form is evaluated at a greater depth than the one
around it, and the limit bounds depths.  A built-in function calls another one, with
arguments of a smaller rank.  And `apply` or `reduce` goes through a store: the rank then
says nothing, but there are only so many stores, and a watch tells when one of them is gone
through once more inside of itself.
-/

namespace CueScript

open Value Depth

namespace Ending

/-! ## What to look out for -/

/-- The store that is the last of some arguments, if that is one. -/
def lastStore? (args : List Value) : Option Nat :=
  match args.getLast? with
  | some (.store id) => some id
  | _ => none

/-- The store that `apply` or `reduce` goes through, if that is the piece of work. -/
def storeGoneThrough? : Task → Option Nat
  | .call (.builtin .apply) args => lastStore? args
  | .call (.builtin .reduce) args => lastStore? args
  | _ => none

/-- The stores that are gone through by the calls around a piece of work, up to the next
body or form. -/
def storesUnderWay : List Task → List Nat
  | .call function args :: outer =>
      (storeGoneThrough? (.call function args)).toList ++ storesUnderWay outer
  | _ => []

/-- A store is gone through inside of a call that goes through it already, with no body or
form in between. -/
def goesThroughAgain : Watch
  | task :: around, _ =>
      match storeGoneThrough? task with
      | some id => (storesUnderWay around).contains id
      | none => false
  | [], _ => false

/-- A list has lost items, or a map shares its entries with a store or a scope. -/
def isChanged : Watch := fun _ heap => !heap.isUnchanged

/-- An operation of a store is called that no built-in function looks for. -/
def isUncommon : Watch
  | .call (.member (.store _) operation) _ :: _, _ => !Store.isCommon operation
  | _, _ => false

/-- A member is read of a value that is no event, or an operation is called that only a
member of such a value can be. -/
def readsOthers : Watch := leavesEvents.or (isChanged.or isUncommon)

/-- What keeps evaluation from ending. -/
def outside : Watch := readsOthers.or goesThroughAgain

/-- A form is evaluated no deeper than the form inside of which that happens. -/
def isNoDeeper : Watch
  | .evaluate _ _ _ depth :: around, _ =>
      match innermostForm? around with
      | some (_, outer) => decide (depth ≤ outer)
      | none => false
  | _, _ => false

/-- A form is evaluated by an evaluator that has another limit. -/
def hasOtherLimit (limit : Int) : Watch
  | .evaluate owner _ _ _ :: _, heap => decide (heap.maxDepth owner ≠ limit)
  | _, _ => false

/-- A store is gone through that is not one of the first ones. -/
def isUnknown (count : Nat) : Watch
  | task :: _, _ =>
      match storeGoneThrough? task with
      | some id => decide (count ≤ id)
      | none => false
  | [], _ => false

/-- Everything because of which a run might not settle. -/
def unsettled (limit : Int) (count : Nat) : Watch :=
  outside.or (isNoDeeper.or ((hasOtherLimit limit).or (isUnknown count)))

/-- What is known where nothing of all that is met. -/
structure Calm (limit : Int) (count : Nat) (around : List Task) (task : Task) (heap : Heap) :
    Prop where
  events : leavesEvents (task :: around) heap = false
  unchanged : heap.isUnchanged = true
  common : isUncommon (task :: around) heap = false
  new : goesThroughAgain (task :: around) heap = false
  deeper : isNoDeeper (task :: around) heap = false
  limited : hasOtherLimit limit (task :: around) heap = false
  known : isUnknown count (task :: around) heap = false

theorem calm_iff
    {limit : Int} {count : Nat} {around : List Task} {task : Task} {heap : Heap} :
    unsettled limit count (task :: around) heap = false ↔ Calm limit count around task heap := by
  constructor
  · intro unmet
    simp only [unsettled, outside, readsOthers, Watch.or, Bool.or_eq_false_iff] at unmet
    obtain ⟨⟨⟨events, unchanged, common⟩, new⟩, deeper, limited, known⟩ := unmet
    exact ⟨events, Bool.not_eq_eq_eq_not.mp unchanged, common, new, deeper, limited, known⟩
  · intro calm
    have unchanged : isChanged (task :: around) heap = false :=
      Bool.not_eq_eq_eq_not.mpr calm.unchanged
    simp only [unsettled, outside, readsOthers, Watch.or, calm.events, unchanged, calm.common,
      calm.new, calm.deeper, calm.limited, calm.known, Bool.or_false]

theorem unsettled_of_changed
    {limit : Int} {count : Nat} {path : List Task} {heap : Heap}
    (changed : heap.isUnchanged = false) :
    unsettled limit count path heap = true := by
  simp [unsettled, outside, readsOthers, Watch.or, isChanged, changed]

/-! ## Stores that are left -/

theorem storeGoneThrough_of_goesThrough
    {function : Builtin} {args : List Value} {id : Nat}
    (goesThrough : Call.GoesThrough function args id) :
    storeGoneThrough? (.call (.builtin function) args) = some id := by
  obtain ⟨rfl | rfl, isLast⟩ := goesThrough
  · simp only [storeGoneThrough?, lastStore?, isLast]
  · simp only [storeGoneThrough?, lastStore?, isLast]

/-- How many of the first stores are not gone through by the calls around a piece of work. -/
def storesLeft (count : Nat) (around : List Task) : Nat :=
  (Finset.range count \ (storesUnderWay around).toFinset).card

variable {count id : Nat} {around : List Task} {function : Value} {args : List Value}

theorem storesLeft_call_le :
    storesLeft count (.call function args :: around) ≤ storesLeft count around := by
  refine Finset.card_le_card (Finset.sdiff_subset_sdiff subset_rfl fun each member => ?_)
  rw [List.mem_toFinset] at member ⊢
  exact List.mem_append_right _ member

theorem storesLeft_call_lt
    (isThrough : storeGoneThrough? (.call function args) = some id)
    (known : id < count) (new : id ∉ storesUnderWay around) :
    storesLeft count (.call function args :: around) < storesLeft count around := by
  refine Finset.card_lt_card ((Finset.ssubset_iff_of_subset ?_).mpr ⟨id, ?_, ?_⟩)
  · refine Finset.sdiff_subset_sdiff subset_rfl fun each member => ?_
    rw [List.mem_toFinset] at member ⊢
    exact List.mem_append_right _ member
  · rw [Finset.mem_sdiff, Finset.mem_range, List.mem_toFinset]
    exact ⟨known, new⟩
  · rw [Finset.mem_sdiff, List.mem_toFinset]
    rintro ⟨-, absent⟩
    refine absent (List.mem_append_left _ ?_)
    rw [isThrough]
    exact List.mem_singleton_self id

end Ending

/-! ## Runs that are cut off -/

namespace Eval

open Ending

/-- Do a piece of work inside of others, under a watch, and stop with some fault where the
frames run out. -/
def guarded (watch : Watch) (alarm : Fault) :
    (frames : Nat) → (cut : Fault) → (around : List Task) → Worker
  | 0, cut, _ => fun _ => throw cut
  | frames + 1, cut, around => fun task => do
      if watch (task :: around) (← get) then
        throw alarm
      else
        step (guarded watch alarm frames cut (task :: around)) task

section Rules

variable {watch : Watch} {alarm : Fault} {around : List Task} {task : Task} {heap : Heap}

theorem perform_guarded_succ
    (watch : Watch) (alarm : Fault) (frames : Nat) (cut : Fault) (around : List Task)
    (task : Task) (heap : Heap) :
    (guarded watch alarm (frames + 1) cut around task).perform heap =
      if watch (task :: around) heap then
        (.error alarm, heap)
      else
        (step (guarded watch alarm frames cut (task :: around)) task).perform heap := by
  rw [guarded, Action.perform_get_bind]
  split
  · exact Action.perform_throw alarm heap
  · rfl

theorem endsIn_of_met (met : watch (task :: around) heap = true) :
    EndsIn (fun frames cut => guarded watch alarm frames cut around task) heap
      (.error alarm, heap) := by
  refine ⟨1, fun frames above cut => ?_⟩
  obtain ⟨fewer, rfl⟩ := Nat.exists_eq_add_of_le' above
  rw [perform_guarded_succ, met, if_pos rfl]

/-- A piece of work settles if its step does wherever the watch tells of nothing. -/
theorem settles_guarded
    (steps : ∀ heap, watch (task :: around) heap = false → SettlesAt (fun frames cut =>
      step (guarded watch alarm frames cut (task :: around)) task) heap) :
    Settles fun frames cut => guarded watch alarm frames cut around task := by
  intro heap
  cases met : watch (task :: around) heap with
  | true => exact ⟨_, endsIn_of_met met⟩
  | false =>
      obtain ⟨ending, enough, ends⟩ := steps heap met
      refine ⟨ending, enough + 1, fun frames above cut => ?_⟩
      obtain ⟨fewer, rfl⟩ := Nat.exists_eq_add_of_le' (Nat.le_of_add_left_le above)
      rw [perform_guarded_succ, met, if_neg Bool.false_ne_true]
      exact ends fewer (Nat.le_of_succ_le_succ above) cut

theorem settles_read (value : Value) (name : String) :
    Settles fun frames cut => guarded watch alarm frames cut around (.read value name) :=
  settles_guarded fun heap _ => Settles.const (readMember value name) heap

/-- Whether every evaluation inside of a form at some depth settles. -/
def DeeperSettle (watch : Watch) (alarm : Fault) (depth : Int) : Prop :=
  ∀ around evaluator, innermostForm? around = some (evaluator, depth) →
    ∀ owner scope item inner, Settles fun frames cut =>
      guarded watch alarm frames cut around (.evaluate owner scope item inner)

theorem settles_enter
    {depth : Int} {evaluator : Nat} (deeper : DeeperSettle watch alarm depth)
    (innermost : innermostForm? around = some (evaluator, depth))
    (closure : Value) (args : List Value) (start : Int) :
    Settles fun frames cut =>
      guarded watch alarm frames cut around (.enter closure args start) := by
  refine settles_guarded fun heap _ => ?_
  have forms (owner : Nat) : FormsSettle
      (fun frames cut => guarded watch alarm frames cut (.enter closure args start :: around))
      owner (start + 1) := fun scope item =>
    deeper (.enter closure args start :: around) evaluator innermost owner scope item (start + 1)
  exact settles_invoke forms closure args heap

end Rules

/-! ## Calls -/

variable {limit : Int} {count : Nat} {alarm : Fault} {around : List Task} {depth : Int}

/-- What is no function cannot be called. -/
theorem settles_call_of_notCallable
    {watch : Watch} {function : Value} (args : List Value)
    (notCallable : Access.isCallable function = false) :
    Settles fun frames cut => guarded watch alarm frames cut around (.call function args) := by
  refine settles_guarded fun heap _ => ?_
  have fails : (fun frames cut => step (guarded watch alarm frames cut
      (.call function args :: around)) (.call function args)) =
      fun _ _ => Action.currentItems args >>= fun _ => Action.fail .wrongType := by
    funext frames cut
    cases function <;> first | rfl | cases notCallable
  rw [fails]
  exact ⟨_, .const _ heap⟩

/-- A call settles if those with a smaller rank do, and all of them where it goes through a
store for the first time. -/
theorem settles_callStep
    {evaluator : Nat} (deeper : DeeperSettle (unsettled limit count) alarm depth)
    (innermost : innermostForm? around = some (evaluator, depth))
    (function : Value) (args : List Value)
    (below : ∀ inner innerArgs, rank innerArgs < rank args → Settles fun frames cut =>
      guarded (unsettled limit count) alarm frames cut (.call function args :: around)
        (.call inner innerArgs))
    (spread : ∀ id, storeGoneThrough? (.call function args) = some id → id < count →
      id ∉ storesUnderWay around → ∀ inner innerArgs, Settles fun frames cut =>
        guarded (unsettled limit count) alarm frames cut (.call function args :: around)
          (.call inner innerArgs)) :
    Settles fun frames cut =>
      guarded (unsettled limit count) alarm frames cut around (.call function args) := by
  let path := Task.call function args :: around
  let worker (frames : Nat) (cut : Fault) : Worker :=
    guarded (unsettled limit count) alarm frames cut path
  let call (frames : Nat) (cut : Fault) : Caller := fun inner innerArgs =>
    worker frames cut (.call inner innerArgs)
  have innermostToo : innermostForm? path = some (evaluator, depth) := innermost
  have smaller (inner : Value) (innerArgs : List Value)
      (isBelow : Access.isCallable inner = true → rank innerArgs < rank args) :
      Settles fun frames cut => call frames cut inner innerArgs := by
    cases callable : Access.isCallable inner with
    | true => exact below inner innerArgs (isBelow callable)
    | false => exact settles_call_of_notCallable innerArgs callable
  have stops : Collection.Stops call := fun heap changed inner innerArgs =>
    ⟨alarm, heap, endsIn_of_met (unsettled_of_changed changed)⟩
  refine settles_guarded fun heap unmet => ?_
  have calm := calm_iff.mp unmet
  -- nothing has changed, so the arguments are what they were
  refine EndsIn.bind (.const (Action.currentItems args) heap) fun present after ran => ?_
  obtain ⟨rfl, rfl⟩ : args = present ∧ heap = after := by
    have same : heap.currentItems args = args := by
      rw [Heap.currentItems, calm.unchanged, if_pos rfl]
    change (Except.ok (heap.currentItems args), heap) = _ at ran
    rw [same] at ran
    cases ran
    exact ⟨rfl, rfl⟩
  cases function with
  | closure id name params rest forms scope owner =>
      exact settles_enter deeper innermostToo _ args (heap.hostDepth owner) heap
  | builtin builtin =>
      have spreads (id : Nat) (goesThrough : Call.GoesThrough builtin args id) :
          ∀ inner innerArgs, Settles fun frames cut => call frames cut inner innerArgs := by
        have isThrough := storeGoneThrough_of_goesThrough goesThrough
        have isKnown := calm.known
        have isNew := calm.new
        simp only [isUnknown, isThrough, decide_eq_false_iff_not, not_le] at isKnown
        simp only [goesThroughAgain, isThrough, List.contains_eq_mem,
          decide_eq_false_iff_not] at isNew
        exact spread id isThrough isKnown isNew
      have handsOn : Call.HandsOn call builtin args := ⟨smaller, stops, spreads⟩
      exact Call.settles_perform handsOn heap
  | keyword name =>
      exact Access.settles_callKeyword
        (fun operation inner isBelow => below operation inner isBelow) heap
  | member receiver operation =>
      have others : SettlesAt (fun frames cut => Action.current receiver >>= fun found =>
          Member.call (call frames cut) found operation args) heap := by
        refine EndsIn.bind (.const (Action.current receiver) heap) fun found after ran => ?_
        obtain ⟨rfl, rfl⟩ : receiver = found ∧ heap = after := by
          have same : heap.current receiver = receiver := by
            rw [Heap.current, calm.unchanged, if_pos rfl]
          change (Except.ok (heap.current receiver), heap) = _ at ran
          rw [same] at ran
          cases ran
          exact ⟨rfl, rfl⟩
        cases receiver with
        | store id =>
            have common : Store.isCommon operation = true :=
              Bool.not_eq_eq_eq_not.mp calm.common
            exact Store.settles_perform common smaller heap
        | _ => exact ⟨_, .const _ heap⟩
      cases receiver with
      | closure => cases calm.events
      | scope => cases calm.events
      | evaluator => cases calm.events
      | _ => exact others
  | _ => exact ⟨_, .const _ heap⟩

/-- Every call inside of a form settles. -/
theorem settles_call
    {evaluator : Nat} (deeper : DeeperSettle (unsettled limit count) alarm depth)
    (innermost : innermostForm? around = some (evaluator, depth))
    (function : Value) (args : List Value) :
    Settles fun frames cut =>
      guarded (unsettled limit count) alarm frames cut around (.call function args) := by
  -- fewer stores are left, or as many and the rank is smaller
  induction hasLeft : storesLeft count around using Nat.strong_induction_on
    generalizing around function args with
  | _ left fewer =>
    induction hasRank : rank args using Nat.strong_induction_on
      generalizing around function args with
    | _ bound smaller =>
      have inside : innermostForm? (.call function args :: around) = some (evaluator, depth) :=
        innermost
      refine settles_callStep deeper innermost function args ?_ ?_
      · intro inner innerArgs isBelow
        have atMost := @storesLeft_call_le count around function args
        rw [hasLeft] at atMost
        rw [hasRank] at isBelow
        rcases Nat.lt_or_eq_of_le atMost with isFewer | same
        · exact fewer _ isFewer inside inner innerArgs rfl
        · exact smaller _ isBelow inside inner innerArgs same rfl
      · intro id isThrough known new inner innerArgs
        have isFewer := storesLeft_call_lt isThrough known new
        rw [hasLeft] at isFewer
        exact fewer _ isFewer inside inner innerArgs rfl

/-! ## Forms -/

/-- What can be asked for inside of a form settles if every evaluation there does. -/
theorem supplies_of_deeper
    {evaluator : Nat} (deeper : DeeperSettle (unsettled limit count) alarm depth)
    (innermost : innermostForm? around = some (evaluator, depth)) (owner : Nat) (inner : Int) :
    Supplies (fun frames cut => guarded (unsettled limit count) alarm frames cut around) owner
      inner where
  form scope item := deeper around evaluator innermost owner scope item inner
  read := settles_read
  enter closure args := settles_enter deeper innermost closure args inner
  call := settles_call deeper innermost

/-- Every evaluation settles. -/
theorem settles_evaluate
    (limit : Int) (count : Nat) (alarm : Fault) (around : List Task) (owner scope : Nat)
    (item : Value) (depth : Int) :
    Settles fun frames cut => guarded (unsettled limit count) alarm frames cut around
      (.evaluate owner scope item depth) := by
  -- by the number of depths from here up to the limit
  induction hasLeft : (limit + 1 - depth).toNat using Nat.strong_induction_on
    generalizing around owner scope item depth with
  | _ left deeper =>
    refine settles_guarded fun heap unmet => ?_
    have limited : heap.maxDepth owner = limit := by
      have isLimit := (calm_iff.mp unmet).limited
      simp only [hasOtherLimit, ne_eq, decide_eq_false_iff_not, not_not] at isLimit
      exact isLimit
    let task := Task.evaluate owner scope item depth
    change SettlesAt (fun frames cut => if heap.maxDepth owner < depth then
        throw (.depthExceeded (heap.maxDepth owner))
      else
        Action.current item >>= formAt (guarded (unsettled limit count) alarm frames cut
          (task :: around)) ⟨owner, scope, depth⟩) heap
    rw [limited]
    by_cases tooDeep : limit < depth
    · simp only [if_pos tooDeep]
      exact ⟨_, .const _ heap⟩
    · simp only [if_neg tooDeep]
      have inside : DeeperSettle (unsettled limit count) alarm depth := by
        intro path evaluator innermost other place part inner
        by_cases isDeeper : depth < inner
        · exact deeper _ (by omega) path other place part inner rfl
        · refine settles_guarded fun after unmetToo => ?_
          have met := (calm_iff.mp unmetToo).deeper
          simp only [isNoDeeper, innermost, decide_eq_false_iff_not] at met
          exact absurd (Int.not_lt.mp isDeeper) met
      let site : Site := ⟨owner, scope, depth⟩
      have supplies := @supplies_of_deeper limit count alarm (task :: around) depth owner inside
        rfl site.evaluator (site.depth + 1)
      have formed (present : Value) : Settles fun frames cut =>
          formAt (guarded (unsettled limit count) alarm frames cut (task :: around)) site
            present :=
        settles_formAt supplies present
      exact Settles.bind (.const (Action.current item)) formed heap

end Eval

end CueScript
