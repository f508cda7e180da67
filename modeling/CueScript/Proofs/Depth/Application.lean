import CueScript.Proofs.Depth.Limit
import CueScript.Proofs.Depth.Shift
import CueScript.Proofs.Run.Current
import CueScript.Proofs.Store.Request

/-!
# Functions that are called by built-in functions

A function value is called in two ways: as the head of a form, at the depth of that form,
and by built-in functions such as `map`, `apply` and `swap!`, at the depth of the call of
these.  The two ways are compared by way of a third run, which is nested less deeply than
both: where no evaluator is asked for its depth, all three do the same.
-/

namespace CueScript

open Value

namespace Value

/-- Whether a value is a function of its own: a closure, a built-in function or a keyword. -/
def isFunction : Value → Bool
  | closure .. | builtin _ | keyword _ => true
  | _ => false

end Value

theorem Heap.current_of_isFunction
    {function : Value} (isFunction : function.isFunction = true) (heap : Heap) :
    heap.current function = function := by
  unfold Heap.current
  split
  · rfl
  · cases function with
    | closure | builtin | keyword => rfl
    | _ => cases isFunction

/-- The items that a list with a number holds now. -/
def Heap.itemsNow (heap : Heap) (items : List Value) (birth : Nat) : List Value :=
  match heap.left? birth with
  | some left => left
  | none => heap.currentItems items

/-- A list that is brought up to date has as many items as it holds now, and these where it
has lost nothing. -/
theorem Heap.exists_current_list (heap : Heap) (items : List Value) (birth : Nat) :
    ∃ shown, heap.current (.list items birth) = .list shown birth ∧
      shown.length = (heap.itemsNow items birth).length ∧
      (heap.left? birth = none → shown = heap.itemsNow items birth) := by
  unfold Heap.itemsNow
  cases lost : heap.left? birth with
  | none =>
      refine ⟨heap.currentItems items, ?_, rfl, fun _ => rfl⟩
      rw [Heap.current_list lost, Heap.map_current_eq]
  | some left =>
      have changed : ¬ heap.isUnchanged = true := by
        intro unchanged
        rw [Heap.isUnchanged, Bool.and_eq_true, List.isEmpty_iff, List.isEmpty_iff] at unchanged
        simp [left?, unchanged.2, Entries.find?] at lost
      have isSome := @Heap.isSome_items_present heap birth
      cases held : heap.present.items birth with
      | none => simp [held, lost] at isSome
      | some shown =>
          refine ⟨shown, ?_, ?_, fun isNone => absurd isNone (Option.some_ne_none left)⟩
          · rw [Heap.current, if_neg changed, Value.current, held]
          · unfold Heap.present at held
            generalize (heap.views.length + 1) * (heap.losses.length + 1) = budget at held
            cases budget with
            | zero => cases held
            | succ budget =>
                simp only [Heap.holdings, lost, Option.map_some, Option.some.injEq] at held
                rw [← held, Value.currentItems_eq, List.length_map]

/-- Evaluators with the settings of those of a heap. -/
structure Heap.SameSettings (heap : Heap) (evaluators : Array EvaluatorState) : Prop where
  count : evaluators.size = heap.evaluators.size
  configs : ∀ id, (heap.equip evaluators).config id = heap.config id

namespace Heap.SameSettings

theorem setHostDepth (heap : Heap) (evaluator : Nat) (depth : Int) :
    heap.SameSettings (heap.setHostDepth evaluator depth).evaluators where
  count := by simp [Heap.setHostDepth]
  configs id := by
    by_cases same : evaluator = id
    · subst same
      cases found : heap.evaluators[evaluator]? with
      | none => simp [config, equip, Heap.setHostDepth, Array.getElem?_modify, found]
      | some state => simp [config, equip, Heap.setHostDepth, Array.getElem?_modify, found]
    · simp [config, equip, Heap.setHostDepth, Array.getElem?_modify, same]

/-- Two runs of which both have the settings of a heap are compared by way of a third one. -/
theorem shallowest
    {heap : Heap} {first second : Array EvaluatorState} (left : heap.SameSettings first)
    (right : heap.SameSettings second) :
    (heap.equip first).Shallower (heap.shallowest first second) ∧
      (heap.equip second).Shallower (heap.shallowest first second) :=
  ⟨heap.shallowest_left first second,
    heap.shallowest_right first second (right.count.trans left.count.symm)
      fun id => (right.configs id).trans (left.configs id).symm⟩

theorem shallowest_of_self
    {heap : Heap} {others : Array EvaluatorState} (settings : heap.SameSettings others) :
    heap.Shallower (heap.shallowest heap.evaluators others) ∧
      (heap.equip others).Shallower (heap.shallowest heap.evaluators others) :=
  shallowest ⟨rfl, fun _ => rfl⟩ settings

theorem of_evaluators
    {heap after : Heap} {evaluators : Array EvaluatorState}
    (settings : heap.SameSettings evaluators) (kept : after.evaluators = heap.evaluators) :
    after.SameSettings evaluators where
  count := settings.count.trans (congrArg Array.size kept).symm
  configs id := by
    have same : after.config id = heap.config id := by
      rw [config, config, kept]
    exact (settings.configs id).trans same.symm

end Heap.SameSettings

/-- The host depth that was there before comes back. -/
theorem Heap.evaluators_setHostDepth_back
    {heap inner : Heap} {evaluator : Nat} {depth : Int}
    (kept : inner.evaluators = (heap.setHostDepth evaluator depth).evaluators) :
    (inner.setHostDepth evaluator (heap.hostDepth evaluator)).evaluators = heap.evaluators := by
  have restored := modify_hostDepth_restores heap.evaluators heap evaluator depth
  change (inner.evaluators.modify evaluator fun state =>
    { state with hostDepth := heap.hostDepth evaluator }) = _
  rw [kept]
  exact restored

namespace Eval

section Calls

variable {frames fewer : Nat} {alarm : Fault} {site : Site} {head function value : Value}
  {args : List Value} {heap after : Heap} {others : Array EvaluatorState}

theorem isLimit_stackExhausted : Fault.IsLimit (.failed .stackExhausted) := trivial

/-- A closure runs its body in the same way for built-in functions as for forms, but for the
depths. -/
theorem call_of_enter
    {id owner scope : Nat} {name : String} {params : List String} {rest : Option String}
    {forms : List Value} {depth : Int}
    (entered : (watched asksHostDepth alarm frames []
      (.enter (.closure id name params rest forms scope owner) args depth)).perform heap =
        (.ok value, after))
    (enough : fewer ≤ frames) (settings : heap.SameSettings others)
    (unlimited : ∀ fault, ((solve fewer
      (.call (.closure id name params rest forms scope owner) args)).perform
        (heap.equip others)).1 = .error fault → ¬ fault.IsLimit) :
    (solve fewer (.call (.closure id name params rest forms scope owner) args)).perform
        (heap.equip others) = (.ok value, after.equip others) ∧
      after.evaluators = heap.evaluators := by
  have quiet : ∀ other, (watched asksHostDepth alarm frames []
      (.enter (.closure id name params rest forms scope owner) args depth)).perform heap ≠
        (.error alarm, other) := by
    intro other stopped
    rw [entered] at stopped
    cases stopped
  have ran := (watched_of_quiet quiet).symm.trans entered
  have kept : after.evaluators = heap.evaluators := by
    have same := solve_evaluators frames
      (.enter (.closure id name params rest forms scope owner) args depth) heap
    rwa [ran] at same
  refine ⟨?_, kept⟩
  cases fewer with
  | zero => exact absurd isLimit_stackExhausted (unlimited _ rfl)
  | succ fewer =>
      -- both depths are compared with the smaller one of them
      let hosted := (heap.equip others).hostDepth owner
      let least := min depth hosted
      have shallowest := settings.shallowest_of_self
      have same := @solve_beside frames
        (.enter (.closure id name params rest forms scope owner) args depth) heap
        (heap.shallowest heap.evaluators others) [] alarm
        (.enter (.closure id name params rest forms scope owner) args least)
        (.enter (.closure id name params rest forms scope owner) args hosted)
        fewer heap.evaluators others
        (.enter _ _ (Int.min_le_left _ _)) (.enter _ _ (Int.min_le_right _ _))
        shallowest.1 shallowest.2 (Nat.le_of_succ_le enough) quiet ?_ unlimited
      · change (solve fewer _).perform (heap.equip others) = _
        rw [same]
        change (((solve frames _).perform heap).1, ((solve frames _).perform heap).2.equip others)
          = _
        rw [ran]
      · intro fault failed
        change ((solve frames _).perform heap).1 = _ at failed
        rw [ran] at failed
        cases failed

/-- A function that is no closure is called in the same way by built-in functions as by
forms, but for the depths. -/
theorem call_of_callHost
    (called : (callHost (watched asksHostDepth alarm frames []) site function args).perform
      heap = (.ok value, after))
    (enough : fewer ≤ frames) (settings : heap.SameSettings others)
    (unlimited : ∀ fault, ((solve fewer (.call function args)).perform
      (heap.equip others)).1 = .error fault → ¬ fault.IsLimit) :
    (solve fewer (.call function args)).perform (heap.equip others) =
        (.ok value, after.equip others) ∧
      after.evaluators = heap.evaluators := by
  have opened := Action.perform_atHostDepth site.evaluator site.depth
    (watched asksHostDepth alarm frames [] (.call function args)) heap
  rw [callHost, opened, Prod.mk.injEq] at called
  obtain ⟨gives, leaves⟩ := called
  let hosting := heap.setHostDepth site.evaluator site.depth
  have quiet : ∀ other, (watched asksHostDepth alarm frames [] (.call function args)).perform
      hosting ≠ (.error alarm, other) := by
    intro other stopped
    rw [stopped] at gives
    cases gives
  rw [watched_of_quiet quiet] at gives leaves
  have kept := solve_evaluators frames (.call function args) hosting
  have shallowest := Heap.SameSettings.shallowest
    (Heap.SameSettings.setHostDepth heap site.evaluator site.depth) settings
  have same := @solve_beside frames (.call function args) heap
    (heap.shallowest hosting.evaluators others) [] alarm (.call function args)
    (.call function args) fewer hosting.evaluators others (.same _) (.same _)
    shallowest.1 shallowest.2 enough quiet ?_ unlimited
  · refine ⟨?_, ?_⟩
    · rw [same, ← leaves]
      exact Prod.ext gives rfl
    · rw [← leaves]
      exact Heap.evaluators_setHostDepth_back kept
  · intro fault failed
    have valued := gives.symm.trans failed
    cases valued

/-- How a value is applied depends on what it is now. -/
theorem perform_apply_current
    (worker : Worker) (site : Site) (head function : Value) (args : List Value) (heap : Heap) :
    (apply worker site head function args).perform heap =
      (match heap.current function with
        | .closure .. => worker (.enter function args site.depth)
        | .map entries _ => Member.callOnMap entries "get" args
        | _ =>
            if Access.isCallable function then callHost worker site function args
            else do
              throw (.notFunction (← headText head function)
                (← Action.shown function)) : Action Value).perform heap := rfl

/-- A function value is applied by running its body or by a host call. -/
theorem perform_apply_cases
    (isFunction : function.isFunction = true) (site : Site) (head : Value) (args : List Value)
    (heap : Heap) :
    (∃ id name params rest forms scope owner,
      function = .closure id name params rest forms scope owner ∧
        ∀ worker, (apply worker site head function args).perform heap =
          (worker (.enter function args site.depth)).perform heap) ∨
      ∀ worker, (apply worker site head function args).perform heap =
        (callHost worker site function args).perform heap := by
  have opened (worker : Worker) := perform_apply_current worker site head function args heap
  simp only [Heap.current_of_isFunction isFunction] at opened
  cases function with
  | closure id name params rest forms scope owner =>
      exact .inl ⟨id, name, params, rest, forms, scope, owner, rfl, opened⟩
  | builtin builtin => exact .inr opened
  | keyword name => exact .inr opened
  | _ => cases isFunction

/-- The value of a head is applied as built-in functions apply it, but for the depths. -/
theorem call_of_apply
    (isFunction : function.isFunction = true)
    (applied : (apply (watched asksHostDepth alarm frames []) site head function args).perform
      heap = (.ok value, after))
    (enough : fewer ≤ frames) (settings : heap.SameSettings others)
    (unlimited : ∀ fault, ((solve fewer (.call function args)).perform
      (heap.equip others)).1 = .error fault → ¬ fault.IsLimit) :
    (solve fewer (.call function args)).perform (heap.equip others) =
        (.ok value, after.equip others) ∧
      after.evaluators = heap.evaluators := by
  rcases perform_apply_cases isFunction site head args heap with
    ⟨id, name, params, rest, forms, scope, owner, rfl, entering⟩ | hosting
  · rw [entering] at applied
    exact call_of_enter applied enough settings unlimited
  · rw [hosting] at applied
    exact call_of_callHost applied enough settings unlimited

/-- Work that gives a value under a watch is done as it is without one. -/
theorem watched_of_ok
    {task : Task} (gives : ((watched asksHostDepth alarm frames [] task).perform heap).1 =
      .ok value) :
    (watched asksHostDepth alarm frames [] task).perform heap =
      (solve frames task).perform heap := by
  refine watched_of_quiet fun other stopped => ?_
  rw [stopped] at gives
  cases gives

/-- A function that is applied under a watch which does not stop it is applied as it is
without one. -/
theorem apply_of_watched
    (isFunction : function.isFunction = true)
    (applied : (apply (watched asksHostDepth alarm frames []) site head function args).perform
      heap = (.ok value, after)) :
    (apply (solve frames) site head function args).perform heap = (.ok value, after) := by
  rcases perform_apply_cases isFunction site head args heap with
    ⟨id, name, params, rest, forms, scope, owner, rfl, entering⟩ | hosting
  · rw [entering] at applied ⊢
    rw [← watched_of_ok (congrArg Prod.fst applied)]
    exact applied
  · rw [hosting, callHost, Action.perform_atHostDepth] at applied ⊢
    rw [← watched_of_ok (Prod.mk.inj applied).1]
    exact applied

end Calls

/-- Apply a function to each of some values and list the results. -/
def eachApplied (worker : Worker) (site : Site) (head function : Value) :
    List Value → Action (List Value)
  | [] => return []
  | item :: rest => do
      let value ← apply worker site head function [item]
      let values ← eachApplied worker site head function rest
      return value :: values

end Eval

/-- An action in two parts that gives a value, apart. -/
theorem Action.exists_of_bind_ok
    {α β : Type} {first : Action α} {next : α → Action β} {heap after : Heap} {value : β}
    (ran : (first >>= next).perform heap = (.ok value, after)) :
    ∃ inner middle, first.perform heap = (.ok inner, middle) ∧
      (next inner).perform middle = (.ok value, after) := by
  rw [Action.perform_bind] at ran
  cases outcome : first.perform heap with
  | mk result middle =>
      rw [outcome] at ran
      cases result with
      | ok inner => exact ⟨inner, middle, rfl, ran⟩
      | error fault => cases ran

namespace Eval

/-- One step of `map`: the result for an item goes before those there are. -/
def mapStep (call : Caller) (function : Value) (results : List Value) (item : Value) :
    Action (Access.Progress (List Value)) := do
  return .more ((← call function [item]) :: results)

/-- How built-in functions call others, with a budget of frames. -/
def callerOf (frames : Nat) : Caller := fun function args => solve frames (.call function args)

/-- Whether a list has the same items left however many applications are done. -/
def Unlost (site : Site) (head function : Value) (birth : Nat) (held : List Value)
    (heap : Heap) : Prop :=
  ∀ count, ((eachApplied Eval.perform site head function (held.take count)).perform heap).2.left?
    birth = heap.left? birth

section Each

variable {frames : Nat} {alarm : Fault} {site : Site} {head function value : Value}
  {birth : Nat} {heap after : Heap} {others : Array EvaluatorState}

theorem eachApplied_of_watched
    (isFunction : function.isFunction = true) (held : List Value) :
    ∀ {heap after : Heap} {values : List Value},
      (eachApplied (watched asksHostDepth alarm frameLimit []) site head function held).perform
        heap = (.ok values, after) →
      (eachApplied Eval.perform site head function held).perform heap = (.ok values, after) := by
  induction held with
  | nil => exact fun through => through
  | cons item more inductionHypothesis =>
      intro heap after values through
      obtain ⟨first, middle, applied, leads⟩ := Action.exists_of_bind_ok through
      obtain ⟨rest, last, throughRest, ends⟩ := Action.exists_of_bind_ok leads
      have appliedToo : (apply Eval.perform site head function [item]).perform heap =
          (.ok first, middle) := apply_of_watched isFunction applied
      rw [eachApplied, Action.perform_bind_ok appliedToo,
        Action.perform_bind_ok (inductionHypothesis throughRest)]
      exact ends

/-- Where nothing is lost while the first item is done, nothing is lost after it either. -/
theorem Unlost.rest
    {item : Value} {more : List Value}
    (unlost : Unlost site head function birth (item :: more) heap)
    (applied : (apply Eval.perform site head function [item]).perform heap = (.ok value, after)) :
    after.left? birth = heap.left? birth ∧ Unlost site head function birth more after := by
  have opened : ∀ items, (eachApplied Eval.perform site head function (item :: items)).perform
      heap = (do
        let values ← eachApplied Eval.perform site head function items
        return value :: values : Action (List Value)).perform after :=
    fun items => Action.perform_bind_ok applied
  have same : ∀ items, ((eachApplied Eval.perform site head function (item :: items)).perform
      heap).2 = ((eachApplied Eval.perform site head function items).perform after).2 := by
    intro items
    rw [opened, Action.perform_bind]
    cases (eachApplied Eval.perform site head function items).perform after with
    | mk outcome last => cases outcome <;> rfl
  have kept : after.left? birth = heap.left? birth := by
    have one := unlost 1
    rwa [List.take_succ_cons, same] at one
  refine ⟨kept, fun count => ?_⟩
  have next := unlost (count + 1)
  rw [List.take_succ_cons, same] at next
  exact next.trans kept.symm

/-- The items that are to come are found again, where the list has lost nothing since. -/
theorem upcoming_eq
    {done : Nat} {items rest held : List Value}
    (isRest : (match heap.left? birth with
      | none => rest
      | some left => left.drop done) = held) :
    (Access.upcoming (.list items birth) done rest).perform (heap.equip others) =
      (.ok held, heap.equip others) := by
  have opened : (Access.upcoming (.list items birth) done rest).perform (heap.equip others) =
      (match heap.left? birth with
        | some left => return left.drop done
        | none => return rest : Action (List Value)).perform (heap.equip others) := rfl
  rw [opened]
  subst isRest
  cases heap.left? birth <;> rfl

/-- `map` goes on with the first of the items that are to come. -/
theorem goThrough_mapStep_cons
    {fewer done budget : Nat} {item : Value} {items rest more results : List Value}
    (isRest : (match heap.left? birth with
      | none => rest
      | some left => left.drop done) = item :: more) :
    (Access.goThrough (.list items birth) (mapStep (callerOf fewer) function) (budget + 1) done
        rest results).perform (heap.equip others) =
      (solve fewer (.call function [item]) >>= fun value =>
        Access.goThrough (.list items birth) (mapStep (callerOf fewer) function) budget (done + 1)
          more (value :: results)).perform (heap.equip others) := by
  rw [Access.goThrough, Action.perform_bind_ok (upcoming_eq isRest)]
  change ((solve fewer (.call function [item]) >>= fun value =>
    (return Access.Progress.more (value :: results) : Action _)) >>= _).perform _ = _
  rw [bind_assoc]
  rfl

/-- `map` does with the items of a list what the calls of the function do one by one. -/
theorem goThrough_mapStep
    (isFunction : function.isFunction = true) {fewer : Nat} (enough : fewer ≤ frameLimit)
    (items : List Value) :
    ∀ (held : List Value) {heap after : Heap} {values rest results : List Value}
      {done budget : Nat},
      (eachApplied (watched asksHostDepth alarm frameLimit []) site head function held).perform
        heap = (.ok values, after) →
      Unlost site head function birth held heap →
      (match heap.left? birth with
        | none => rest
        | some left => left.drop done) = held →
      held.length < budget →
      heap.SameSettings others →
      (∀ fault, ((Access.goThrough (.list items birth) (mapStep (callerOf fewer) function) budget
        done rest results).perform (heap.equip others)).1 = .error fault → ¬ fault.IsLimit) →
      (Access.goThrough (.list items birth) (mapStep (callerOf fewer) function) budget done rest
        results).perform (heap.equip others) =
          (.ok (values.reverse ++ results), after.equip others) ∧
        after.evaluators = heap.evaluators := by
  intro held
  induction held with
  | nil =>
      intro heap after values rest results done budget through unlost isRest within settings
        unlimited
      obtain ⟨budget, rfl⟩ := Nat.exists_eq_succ_of_ne_zero (Nat.pos_iff_ne_zero.mp within)
      cases through
      rw [Access.goThrough, Action.perform_bind_ok (upcoming_eq isRest)]
      exact ⟨rfl, rfl⟩
  | cons item more inductionHypothesis =>
      intro heap after values rest results done budget through unlost isRest within settings
        unlimited
      obtain ⟨budget, rfl⟩ := Nat.exists_eq_succ_of_ne_zero (Nat.ne_zero_of_lt within)
      obtain ⟨first, middle, applied, leads⟩ := Action.exists_of_bind_ok through
      obtain ⟨others', last, throughRest, ends⟩ := Action.exists_of_bind_ok leads
      cases ends
      rw [goThrough_mapStep_cons isRest] at unlimited ⊢
      have called := call_of_apply isFunction applied enough settings fun fault failed => by
        refine unlimited fault ?_
        rw [Action.perform_bind, ← Prod.eta ((solve fewer _).perform (heap.equip others)), failed]
      obtain ⟨kept, unlostRest⟩ := unlost.rest (apply_of_watched isFunction applied)
      rw [Action.perform_bind_ok called.1] at unlimited ⊢
      have isRestToo : (match middle.left? birth with
          | none => more
          | some left => left.drop (done + 1)) = more := by
        rw [kept]
        cases lost : heap.left? birth with
        | none => rfl
        | some left =>
            rw [lost] at isRest
            exact List.tail_drop.symm.trans (congrArg List.tail isRest)
      have settled := inductionHypothesis throughRest unlostRest isRestToo
        (Nat.lt_of_succ_lt_succ within) (settings.of_evaluators called.2) unlimited
      refine ⟨?_, settled.2.trans called.2⟩
      rw [settled.1, List.reverse_cons, List.append_assoc]
      rfl

end Each

end Eval

open Eval

/-- The arguments, beside the function, of a call of a built-in function that applies it. -/
inductive HigherOrder where
  /-- `(map f xs)` for a list with its number. -/
  | map (items : List Value) (birth : Nat)
  /-- `(apply f a … xs)` for a list with its number. -/
  | apply (args items : List Value) (birth : Nat)
  /-- `(swap! store key f a …)`. -/
  | swap (id : Nat) (key : Value) (args : List Value)

namespace HigherOrder

/-- The built-in function. -/
def builtin : HigherOrder → Builtin
  | map .. => .map
  | apply .. => .apply
  | swap .. => .swap

/-- The arguments with the function among them. -/
def args (function : Value) : HigherOrder → List Value
  | map items birth => [function, .list items birth]
  | apply args items birth => function :: (args ++ [.list items birth])
  | swap id key args => .store id :: key :: function :: args

/-- The calls that a higher-order function stands for, written as forms: `(list (f x) …)`,
`(f a … x …)`, and `(f old a …)` with the result stored under the key. -/
def spelledOut (worker : Worker) (around site : Site) (head function : Value) :
    HigherOrder → Action Value
  | map items birth => do
      let held := (← get).itemsNow items birth
      let values ← eachApplied worker site head function held
      Eval.apply worker around (.symbol "list") (.builtin .list) values
  | apply args items birth => do
      let given ← Action.currentItems args
      let spread ← Access.items (← Action.current (.list items birth))
      Eval.apply worker site head function (given ++ spread)
  | swap id key args => do
      let under ← Action.current key
      let given ← Action.currentItems args
      let old ← Store.get id under .nil
      let value ← Eval.apply worker site head function (old :: given)
      Store.set id under value

section Calls

variable {fewer : Nat} {alarm : Fault} {around site : Site} {head function value : Value}
  {heap after : Heap} {others : Array EvaluatorState}

theorem perform_call_builtin (frames : Nat) (builtin : Builtin) (args : List Value)
    (heap : Heap) :
    (solve (frames + 1) (.call (.builtin builtin) args)).perform heap =
      (Call.perform (callerOf frames) builtin (heap.currentItems args)).perform heap := rfl

section SpelledOut

variable (worker : Worker) (around site : Site) (head function : Value) (heap : Heap)

theorem spelledOut_map (items : List Value) (birth : Nat) :
    (spelledOut worker around site head function (.map items birth)).perform heap =
      (eachApplied worker site head function (heap.itemsNow items birth) >>= fun values =>
        Eval.apply worker around (.symbol "list") (.builtin .list) values).perform heap := rfl

theorem spelledOut_apply
    {worker : Worker} {around site : Site} {head function : Value} {heap : Heap}
    {items shown : List Value} {birth : Nat}
    (current : heap.current (.list items birth) = .list shown birth) (given : List Value) :
    (spelledOut worker around site head function (.apply given items birth)).perform heap =
      (Eval.apply worker site head function (heap.currentItems given ++ shown)).perform heap := by
  have opened : (spelledOut worker around site head function (.apply given items birth)).perform
      heap = (Access.items (heap.current (.list items birth)) >>= fun spread =>
        Eval.apply worker site head function (heap.currentItems given ++ spread)).perform heap :=
    rfl
  rw [opened, current]
  rfl

theorem spelledOut_swap (id : Nat) (key : Value) (given : List Value) :
    (spelledOut worker around site head function (.swap id key given)).perform heap =
      (Store.get id (heap.current key) .nil >>= fun old =>
        Eval.apply worker site head function (old :: heap.currentItems given) >>= fun value =>
          Store.set id (heap.current key) value).perform heap := rfl

end SpelledOut

theorem perform_itemsIfPresent (items : List Value) (birth : Nat) (heap : Heap) :
    (Access.itemsIfPresent (.list items birth)).perform heap = (.ok items, heap) := by
  cases items <;> rfl

/-- A list of values that were brought up to date and one of the values are brought up to
date as the same list. -/
theorem current_list_currentItems
    {later heap : Heap} (remembers : later.Remembers heap) (items : List Value) (birth : Nat) :
    later.current (.list (heap.currentItems items) birth) =
      later.current (.list items birth) := by
  by_cases unchanged : heap.isUnchanged = true
  · have same : heap.currentItems items = items := if_pos unchanged
    rw [same]
  · have changed : ¬ later.isUnchanged = true := mt remembers.isUnchanged unchanged
    rw [Heap.current, Heap.current, Heap.currentItems, if_neg unchanged, if_neg changed,
      if_neg changed, Value.current, Value.current,
      Value.currentItems_of_currentItems remembers.covers]

theorem perform_call_map
    (isFunction : function.isFunction = true) (frames : Nat) {items shown : List Value}
    {birth : Nat} (current : heap.current (.list items birth) = .list shown birth) :
    (solve (frames + 1) (.call (.builtin .map) (args function (.map items birth)))).perform heap =
      (Access.goThrough (.list shown birth) (mapStep (callerOf frames) function)
        (shown.length + 1) 0 shown [] >>= fun results =>
          Action.newList results.reverse).perform heap := by
  rw [perform_call_builtin, ← Heap.map_current_eq, args, List.map_cons, List.map_cons,
    List.map_nil, current, Heap.current_of_isFunction isFunction]
  change (Access.itemsIfPresent (.list shown birth) >>= fun items =>
    Access.overItems (.list shown birth) items (mapStep (callerOf frames) function) [] >>=
      fun results => Action.newList results.reverse).perform heap = _
  rw [Action.perform_bind_ok (perform_itemsIfPresent shown birth heap)]
  rfl

/-- What it is to list values by a call of `list`. -/
theorem listed
    {values : List Value}
    (applied : (Eval.apply (watched asksHostDepth alarm frameLimit []) around (.symbol "list")
      (.builtin .list) values).perform heap = (.ok value, after)) :
    value = .list (heap.currentItems values) heap.births ∧
      after = { heap with births := heap.births + 1 } := by
  obtain ⟨frames, isNext⟩ : ∃ frames, frameLimit = frames + 1 := ⟨99999, rfl⟩
  have lists : (solve frameLimit (.call (.builtin .list) values)).perform heap =
      (.ok (.list (heap.currentItems values) heap.births),
        { heap with births := heap.births + 1 }) := by
    rw [isNext, perform_call_builtin]
    rfl
  have called := @call_of_apply frameLimit frameLimit alarm around (.symbol "list")
    (.builtin .list) value values heap after heap.evaluators rfl applied (Nat.le_refl _)
    ⟨rfl, fun _ => rfl⟩ fun fault failed => by
      change ((solve frameLimit (.call (.builtin .list) values)).perform heap).1 = _ at failed
      rw [lists] at failed
      cases failed
  obtain ⟨same, kept⟩ := called
  have isAfter : after.equip heap.evaluators = after := by rw [← kept]; rfl
  rw [isAfter] at same
  have both := same.symm.trans lists
  exact ⟨Except.ok.inj (Prod.mk.inj both).1, (Prod.mk.inj both).2⟩

/-- The call of `map` does what the single calls do. -/
theorem call_map
    (isFunction : function.isFunction = true) (enough : fewer < frameLimit)
    {items : List Value} {birth : Nat}
    (spelled : (spelledOut (watched asksHostDepth alarm frameLimit []) around site head function
      (.map items birth)).perform heap = (.ok value, after))
    (unlost : Unlost site head function birth (heap.itemsNow items birth) heap)
    (settings : heap.SameSettings others)
    (unlimited : ∀ fault, ((solve (fewer + 1) (.call (.builtin .map)
      (args function (.map items birth)))).perform (heap.equip others)).1 = .error fault →
        ¬ fault.IsLimit) :
    ∃ result, (solve (fewer + 1) (.call (.builtin .map)
        (args function (.map items birth)))).perform (heap.equip others) =
          (.ok result, after.equip others) ∧
      after.evaluators = heap.evaluators ∧ after.current result = after.current value := by
  rw [spelledOut_map] at spelled
  obtain ⟨values, middle, through, lists⟩ := Action.exists_of_bind_ok spelled
  obtain ⟨shown, current, count, isShown⟩ := heap.exists_current_list items birth
  have currentToo : (heap.equip others).current (.list items birth) = .list shown birth := by
    rw [Heap.current_equip, current]
  rw [perform_call_map isFunction fewer currentToo] at unlimited ⊢
  have isRest : (match heap.left? birth with
      | none => shown
      | some left => left.drop 0) = heap.itemsNow items birth := by
    cases lost : heap.left? birth with
    | none => exact isShown lost
    | some left => simp [Heap.itemsNow, lost]
  have went := goThrough_mapStep isFunction (Nat.le_of_lt enough) shown _ through unlost isRest
    (Nat.lt_succ_of_le (Nat.le_of_eq count.symm)) settings fun fault failed => by
      refine unlimited fault ?_
      rw [Action.perform_bind, ← Prod.eta ((Access.goThrough _ _ _ _ _ _).perform _), failed]
  rw [Action.perform_bind_ok went.1, List.append_nil, List.reverse_reverse]
  obtain ⟨rfl, rfl⟩ := listed lists
  refine ⟨.list values middle.births, rfl, went.2, ?_⟩
  have remembers : Heap.Remembers { middle with births := middle.births + 1 } middle :=
    ⟨fun _ is => is, fun _ is => is⟩
  exact (current_list_currentItems remembers values middle.births).symm

/-- The call of `apply` does what the call of the function does. -/
theorem call_apply
    (isFunction : function.isFunction = true) (enough : fewer < frameLimit)
    {given items : List Value} {birth : Nat}
    (spelled : (spelledOut (watched asksHostDepth alarm frameLimit []) around site head function
      (.apply given items birth)).perform heap = (.ok value, after))
    (settings : heap.SameSettings others)
    (unlimited : ∀ fault, ((solve (fewer + 1) (.call (.builtin .apply)
      (args function (.apply given items birth)))).perform (heap.equip others)).1 =
        .error fault → ¬ fault.IsLimit) :
    (solve (fewer + 1) (.call (.builtin .apply)
        (args function (.apply given items birth)))).perform (heap.equip others) =
          (.ok value, after.equip others) ∧
      after.evaluators = heap.evaluators := by
  obtain ⟨shown, current, -, -⟩ := heap.exists_current_list items birth
  rw [spelledOut_apply current] at spelled
  have calls : (solve (fewer + 1) (.call (.builtin .apply)
      (args function (.apply given items birth)))).perform (heap.equip others) =
      (solve fewer (.call function (heap.currentItems given ++ shown))).perform
        (heap.equip others) := by
    have currentToo : (heap.equip others).current (.list items birth) = .list shown birth := by
      rw [Heap.current_equip, current]
    rw [perform_call_builtin, ← Heap.map_current_eq, args, List.map_cons, List.map_append,
      List.map_cons, List.map_nil, currentToo, Heap.current_of_isFunction isFunction,
      Heap.map_current_eq, Heap.currentItems_equip]
    change (Collection.apply (callerOf fewer) function
      (heap.currentItems given ++ [.list shown birth])).perform (heap.equip others) = _
    rw [Collection.apply, List.getLast?_append, List.getLast?_singleton, Option.some_or]
    dsimp only
    rw [Action.perform_bind_ok (perform_itemsIfPresent shown birth (heap.equip others)),
      List.dropLast_concat]
    rfl
  rw [calls] at unlimited ⊢
  exact call_of_apply isFunction spelled (Nat.le_of_lt enough) settings unlimited

/-- The value under a key is set beside other evaluators as it is set. -/
theorem perform_set_equip
    {id : Nat} {key item : Value}
    (stored : (Store.set id key item).perform heap = (.ok value, after)) :
    (Store.set id key item).perform (heap.equip others) = (.ok value, after.equip others) ∧
      after.evaluators = heap.evaluators := by
  rw [Store.set] at stored ⊢
  cases put : ValueEntries.put (heap.entries id) key item with
  | ok revised =>
      have putToo : ValueEntries.put ((heap.equip others).entries id) key item = .ok revised := by
        rw [Heap.entries_equip, put]
      rw [Action.perform_bind_ok (Store.perform_revise_ok put), Action.perform_pure] at stored
      rw [Action.perform_bind_ok (Store.perform_revise_ok putToo), Action.perform_pure,
        Heap.setEntries_equip]
      cases stored
      refine ⟨rfl, ?_⟩
      unfold Heap.setEntries
      split <;> rfl
  | error failure =>
      rw [Action.perform_bind_error (Store.perform_revise_error put)] at stored
      cases stored

/-- The value under a key is found beside other evaluators as it is found. -/
theorem perform_get_equip
    {id : Nat} {key default : Value}
    (got : (Store.get id key default).perform heap = (.ok value, after)) :
    after = heap ∧ (Store.get id key default).perform (heap.equip others) =
      (.ok value, heap.equip others) := by
  have opened : ∀ heap : Heap, (Store.get id key default).perform heap =
      (Action.ofExcept ((heap.entries id).get? key) >>= fun found =>
        return found.getD default : Action Value).perform heap := fun _ => rfl
  rw [opened] at got ⊢
  rw [Heap.entries_equip]
  cases found : (heap.entries id).get? key with
  | ok held =>
      rw [found] at got
      cases got
      exact ⟨rfl, rfl⟩
  | error failure =>
      rw [found] at got
      cases got

theorem perform_call_swap
    (isFunction : function.isFunction = true) (frames id : Nat) (key : Value)
    (given : List Value) :
    (solve (frames + 2) (.call (.builtin .swap) (args function (.swap id key given)))).perform
        heap =
      (Store.update (callerOf frames) id (heap.current key) function
        (heap.currentItems given)).perform heap := by
  have isStore : heap.current (.store id) = .store id := by
    unfold Heap.current
    split <;> rfl
  have twice : heap.currentItems (heap.currentItems given) = heap.currentItems given := by
    rw [← Heap.map_current_eq, ← Heap.map_current_eq, List.map_map]
    exact List.map_congr_left fun item _ => Heap.current_current item
  rw [perform_call_builtin, ← Heap.map_current_eq, args, List.map_cons, List.map_cons,
    List.map_cons, isStore, Heap.current_of_isFunction isFunction, Heap.map_current_eq]
  change (solve (frames + 1) (.call (.member (.store id) "update")
    (heap.current key :: function :: heap.currentItems given))).perform heap = _
  change (Member.call (callerOf frames) (heap.current (.store id)) "update"
    (heap.currentItems (heap.current key :: function :: heap.currentItems given))).perform heap =
      _
  rw [isStore, ← Heap.map_current_eq, List.map_cons, List.map_cons,
    Heap.current_of_isFunction isFunction, Heap.current_current, Heap.map_current_eq, twice]
  rfl

/-- The call of `swap!` stores what the call of the function gives. -/
theorem call_swap
    (isFunction : function.isFunction = true) (enough : fewer < frameLimit)
    {id : Nat} {key : Value} {given : List Value}
    (spelled : (spelledOut (watched asksHostDepth alarm frameLimit []) around site head function
      (.swap id key given)).perform heap = (.ok value, after))
    (settings : heap.SameSettings others)
    (unlimited : ∀ fault, ((solve (fewer + 2) (.call (.builtin .swap)
      (args function (.swap id key given)))).perform (heap.equip others)).1 =
        .error fault → ¬ fault.IsLimit) :
    (solve (fewer + 2) (.call (.builtin .swap)
        (args function (.swap id key given)))).perform (heap.equip others) =
          (.ok value, after.equip others) ∧
      after.evaluators = heap.evaluators := by
  rw [spelledOut_swap] at spelled
  obtain ⟨old, before, got, leads⟩ := Action.exists_of_bind_ok spelled
  obtain ⟨inner, middle, applied, stored⟩ := Action.exists_of_bind_ok leads
  obtain ⟨rfl, gotToo⟩ := @perform_get_equip _ _ _ others _ _ _ got
  rw [perform_call_swap isFunction, Heap.current_equip, Heap.currentItems_equip, Store.update,
    Action.perform_bind_ok gotToo] at unlimited ⊢
  have called := call_of_apply isFunction applied (Nat.le_of_lt enough) settings
    fun fault failed => by
      refine unlimited fault ?_
      rw [Action.perform_bind]
      dsimp only [callerOf]
      rw [← Prod.eta ((solve fewer _).perform _), failed]
  have gives : (callerOf fewer function (old :: before.currentItems given)).perform
      (before.equip others) = (.ok inner, middle.equip others) := called.1
  rw [Action.perform_bind_ok gives]
  have storedToo := @perform_set_equip _ _ _ others _ _ _ stored
  exact ⟨storedToo.1, storedToo.2.trans called.2⟩

/-- Calls that give a value under a watch are done as they are without one. -/
theorem spelledOut_of_watched
    (isFunction : function.isFunction = true) (order : HigherOrder)
    (spelled : (order.spelledOut (watched asksHostDepth alarm frameLimit []) around site head
      function).perform heap = (.ok value, after)) :
    (order.spelledOut Eval.perform around site head function).perform heap =
      (.ok value, after) := by
  cases order with
  | map items birth =>
      rw [spelledOut_map] at spelled ⊢
      obtain ⟨values, middle, through, lists⟩ := Action.exists_of_bind_ok spelled
      rw [Action.perform_bind_ok (eachApplied_of_watched isFunction _ through)]
      exact apply_of_watched rfl lists
  | apply given items birth =>
      obtain ⟨shown, current, -, -⟩ := heap.exists_current_list items birth
      rw [spelledOut_apply current] at spelled ⊢
      exact apply_of_watched isFunction spelled
  | swap id key given =>
      rw [spelledOut_swap] at spelled ⊢
      obtain ⟨old, before, got, leads⟩ := Action.exists_of_bind_ok spelled
      obtain ⟨inner, middle, applied, stored⟩ := Action.exists_of_bind_ok leads
      have appliedToo : (Eval.apply Eval.perform site head function
          (old :: heap.currentItems given)).perform before = (.ok inner, middle) :=
        apply_of_watched isFunction applied
      rw [Action.perform_bind_ok got, Action.perform_bind_ok appliedToo]
      exact stored

/-- Whether the list that `map` goes through loses no items while its items are done. -/
def Untouched (site : Site) (head function : Value) (heap : Heap) : HigherOrder → Prop
  | map items birth => Unlost site head function birth (heap.itemsNow items birth) heap
  | _ => True

/-- The call of a higher-order function does what the calls do that it stands for. -/
theorem call_of_spelledOut
    (isFunction : function.isFunction = true) (order : HigherOrder)
    (spelled : (order.spelledOut (watched asksHostDepth alarm frameLimit []) around site head
      function).perform heap = (.ok value, after))
    (untouched : order.Untouched site head function heap)
    (settings : heap.SameSettings others)
    (unlimited : ∀ fault, ((Eval.perform (.call (.builtin order.builtin)
      (order.args function))).perform (heap.equip others)).1 = .error fault → ¬ fault.IsLimit) :
    ∃ result, (Eval.perform (.call (.builtin order.builtin) (order.args function))).perform
        (heap.equip others) = (.ok result, after.equip others) ∧
      after.evaluators = heap.evaluators ∧ after.current result = after.current value := by
  obtain ⟨frames, isNext⟩ : ∃ frames, frameLimit = frames + 2 := ⟨99998, rfl⟩
  have performs : Eval.perform = solve (frames + 2) := by rw [← isNext]; rfl
  rw [performs] at unlimited ⊢
  cases order with
  | map items birth =>
      exact call_map isFunction (by omega) spelled untouched settings unlimited
  | apply given items birth =>
      have called := call_apply isFunction (by omega) spelled settings unlimited
      exact ⟨value, called.1, called.2, rfl⟩
  | swap id key given =>
      have called := call_swap isFunction (by omega) spelled settings unlimited
      exact ⟨value, called.1, called.2, rfl⟩

end Calls

/-- `(fn [n] (inc n))`, made in the outermost scope. -/
def incrementing : Value :=
  .closure 0 "fn" ["n"] none [.list [.symbol "inc", .symbol "n"] 0] 0 0

/-- The items 1 and 2 for `map`. -/
def overTwo : HigherOrder := .map [.int 1, .int 2] 0

/-- Whether a run gives a value that equals a given one. -/
def givesEqual (given : Value) (ending : Except Fault Value × Heap) : Bool :=
  match ending.1 with
  | .ok result => result.equal given
  | _ => false

theorem of_givesEqual
    {given : Value} {ending : Except Fault Value × Heap}
    (isGiven : givesEqual given ending = true) :
    ∃ result, ending = (.ok result, ending.2) ∧ result.equal given = true := by
  obtain ⟨outcome, heap⟩ := ending
  cases outcome with
  | ok result => exact ⟨result, rfl, isGiven⟩
  | error fault => cases isGiven

/-- `{:a 1}`, which forms may apply. -/
def numberedMap : Value := .map [(.keyword "a", .int 1)] 0

/-- Whether a run fails as a value of the wrong type does. -/
def isWrongType (ending : Except Fault Value × Heap) : Bool :=
  match ending.1 with
  | .error fault => fault == .failed .wrongType
  | .ok _ => false

end HigherOrder

end CueScript
