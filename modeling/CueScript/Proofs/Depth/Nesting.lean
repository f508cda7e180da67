import CueScript.Proofs.Run.Watch

/-!
# How deep bodies of closures nest

Depth is counted in two ways: a form passes its depth on to the closures it calls, and an
evaluator keeps the depth of its innermost call of a function that is not a closure, for
the closures which that function calls back.  The second count is that of the evaluator
the closure belongs to, which need not be the evaluator of the form that made the call.

Bodies nest no deeper than the limit as long as no closure that is called back starts at a
smaller depth than the form that made the call.  If only closures of the same evaluator
are called back, none does.
-/

namespace CueScript

namespace Depth

open Eval

/-! ## What to look out for -/

/-- How many bodies are under way. -/
def bodies : List Task → Nat
  | [] => 0
  | .enter .. :: outer => bodies outer + 1
  | _ :: outer => bodies outer

/-- The evaluator and the depth of the innermost form under way. -/
def innermostForm? : List Task → Option (Nat × Int)
  | [] => none
  | .evaluate evaluator _ _ depth :: _ => some (evaluator, depth)
  | _ :: outer => innermostForm? outer

/-- The depth of the form that made the call inside of which something is called back. -/
def calledFrom? : List Task → Option Int
  | .call _ _ :: outer => (innermostForm? outer).map Prod.snd
  | _ => none

/-- More bodies are under way than the limit allows. -/
def deeper (limit : Int) : Watch := fun path _ => decide (limit < bodies path)

/-- A closure is called back and starts at a smaller depth than the form that made the
call. -/
def startsShallow : Watch
  | .enter _ _ depth :: around, _ =>
      match calledFrom? around with
      | some formDepth => decide (depth < formDepth)
      | none => false
  | _, _ => false

/-- A closure is called back that belongs to another evaluator than the form that made the
call. -/
def isForeign : Watch
  | .call (.closure _ _ _ _ _ _ owner) _ :: around, _ =>
      match innermostForm? around with
      | some (evaluator, _) => owner != evaluator
      | none => false
  | _, _ => false

/-- The depth of the innermost call that an evaluator has made of a function that is not a
closure. -/
def hostDepthIn (evaluators : Array EvaluatorState) (evaluator : Nat) : Int :=
  (Heap.empty.equip evaluators).hostDepth evaluator

theorem hostDepthIn_modify
    {evaluators : Array EvaluatorState} {evaluator : Nat} (depth : Int)
    (known : evaluator < evaluators.size) :
    hostDepthIn
        (evaluators.modify evaluator fun state => { state with hostDepth := depth })
        evaluator = depth := by
  have found : evaluators[evaluator]? = some evaluators[evaluator] :=
    Array.getElem?_eq_getElem known
  simp only [hostDepthIn, Heap.hostDepth, Heap.equip_evaluators, Array.getElem?_modify, found,
    if_pos, Option.map_some]

theorem startsShallow_eq_false_iff
    {closure : Value} {args : List Value} {depth : Int} {around : List Task} {heap : Heap} :
    startsShallow (.enter closure args depth :: around) heap = false ↔
      ∀ formDepth, calledFrom? around = some formDepth → formDepth ≤ depth := by
  cases isForm : calledFrom? around with
  | none => simp [startsShallow, isForm]
  | some formDepth => simp [startsShallow, isForm]

/-! ## Evaluators of a session -/

/-- Whatever belongs to one of the first evaluators may be met. -/
def ownedBelow (count : Nat) : Bounds := { Bounds.anything with evaluators := (· < count) }

theorem lists_ownedBelow (count birth : Nat) (items : List Value) :
    (ownedBelow count).Lists birth items :=
  Bounds.lists_anything birth items

/-- Some number of evaluators that all have the same limit. -/
structure Alike (limit : Int) (count : Nat) (evaluators : Array EvaluatorState) : Prop where
  size : evaluators.size = count
  maxDepth : ∀ (id : Nat) (state : EvaluatorState), evaluators[id]? = some state →
    state.config.maxDepth = limit

variable {limit : Int} {count : Nat} {evaluators : Array EvaluatorState}

theorem Alike.limit_eq
    (alike : Alike limit count evaluators) {regime : Regime} {alarm : Fault} {evaluator : Nat}
    (known : evaluator < count) :
    (regime.pact alarm evaluators).limit evaluator = limit := by
  rw [← alike.size] at known
  have found : evaluators[evaluator]? = some evaluators[evaluator] :=
    Array.getElem?_eq_getElem known
  have same := alike.maxDepth evaluator _ found
  simp only [Pact.limit, Regime.pact, Heap.maxDepth, Heap.config, Heap.equip_evaluators, found]
  exact same

theorem Alike.inCall
    (alike : Alike limit count evaluators) (evaluator : Nat) (depth : Int) :
    Alike limit count
      (evaluators.modify evaluator fun state => { state with hostDepth := depth }) where
  size := by
    rw [Array.size_modify]
    exact alike.size
  maxDepth id state isState := by
    rw [Array.getElem?_modify] at isState
    split at isState
    · obtain ⟨old, isOld, rfl⟩ := Option.map_eq_some_iff.mp isState
      exact alike.maxDepth id old isOld
    · exact alike.maxDepth id state isState

/-! ## Closures of the same evaluator -/

/-- What holds while no closure of another evaluator is called back. -/
def KeepsDepth (count : Nat) (evaluators : Array EvaluatorState) (around : List Task)
    (task : Task) : Prop :=
  evaluators.size = count ∧
    match task with
    | .call .. => ∀ evaluator depth, innermostForm? around = some (evaluator, depth) →
        hostDepthIn evaluators evaluator = depth + 1
    | .enter _ _ depth => ∀ formDepth, calledFrom? around = some formDepth →
        formDepth ≤ depth
    | _ => True

/-- The regime of closures of the same evaluator. -/
def sameOwner (count : Nat) : Regime := ⟨ownedBelow count, True, KeepsDepth count⟩

theorem sameOwner_governs (count : Nat) :
    (sameOwner count).Governs (isReflective.or isForeign) (isReflective.or startsShallow) where
  grammar := Bounds.grammar_of_total (lists_ownedBelow count 0) (fun _ => trivial) trivial
  spared evaluators around task heap legal _ _ unmet := by
    obtain ⟨notReflective, -⟩ := Bool.or_eq_false_iff.mp unmet
    rw [Watch.or, notReflective, Bool.false_or]
    refine ⟨?_, task.ready_of_total (fun _ => trivial) fun _ => trivial⟩
    cases task with
    | enter => exact startsShallow_eq_false_iff.mpr legal.2
    | _ => rfl
  kept alarm evaluators around task heap further sub legal within _ unmet asks _ := by
    obtain ⟨size, depths⟩ := legal
    obtain ⟨notReflective, notForeign⟩ := Bool.or_eq_false_iff.mp unmet
    cases asks with
    | part => exact ⟨size, trivial⟩
    | member => exact ⟨size, trivial⟩
    | closure => exact ⟨size, fun _ isForm => nomatch isForm⟩
    | host evaluator scope form depth =>
        refine ⟨(Array.size_modify ..).trans size, fun inner formDepth isForm => ?_⟩
        cases isForm
        have known : evaluator < evaluators.size := size.symm ▸ within.1
        exact hostDepthIn_modify (depth + 1) known
    | body => exact ⟨size, trivial⟩
    | back => exact ⟨size, depths⟩
    | start id name params rest forms scope owner args =>
        refine ⟨size, fun formDepth isForm => ?_⟩
        obtain ⟨⟨evaluator, depth⟩, isInnermost, rfl⟩ := Option.map_eq_some_iff.mp isForm
        have same : owner = evaluator := by
          simp only [isForeign, isInnermost, bne_eq_false_iff_eq] at notForeign
          exact notForeign
        have counted := depths evaluator depth isInnermost
        rw [← same] at counted
        change depth ≤ hostDepthIn evaluators owner
        omega
    | reflection function args isReflection =>
        exact absurd isReflection (not_isReflection notReflective)

/-! ## Limits -/

/-- What holds while no closure that is called back starts at a smaller depth than the form
that made the call. -/
def KeepsLimit (limit : Int) (count : Nat) (evaluators : Array EvaluatorState)
    (around : List Task) (task : Task) : Prop :=
  Alike limit count evaluators ∧ bodies (task :: around) ≤ limit ∧
    match task with
    | .evaluate _ _ _ depth => bodies around ≤ depth
    | .read .. => True
    | .enter _ _ depth => bodies (task :: around) ≤ (calledFrom? around).getD depth + 1
    | .call .. =>
        match innermostForm? around with
        | some (_, depth) => bodies around ≤ depth ∧ depth + 1 ≤ limit
        | none => bodies around = 0 ∧ ∀ evaluator, 0 ≤ hostDepthIn evaluators evaluator

theorem KeepsLimit.enter
    {around : List Task} {closure : Value} {args : List Value} {depth : Int}
    (alike : Alike limit count evaluators)
    (inLimit : bodies around + 1 ≤ limit)
    (counted : bodies around ≤ (calledFrom? around).getD depth) :
    KeepsLimit limit count evaluators around (.enter closure args depth) := by
  have another : (bodies (.enter closure args depth :: around) : Int) = bodies around + 1 :=
    rfl
  refine ⟨alike, ?_, ?_⟩
  · rw [another]
    exact inLimit
  · change (bodies (.enter closure args depth :: around) : Int) ≤ _
    rw [another]
    omega

/-- The regime of evaluators with one limit. -/
def oneLimit (limit : Int) (count : Nat) : Regime :=
  ⟨ownedBelow count, True, KeepsLimit limit count⟩

theorem oneLimit_governs (positive : 1 ≤ limit) (count : Nat) :
    (oneLimit limit count).Governs (isReflective.or startsShallow) (deeper limit) where
  grammar := Bounds.grammar_of_total (lists_ownedBelow count 0) (fun _ => trivial) trivial
  spared evaluators around task heap legal _ _ _ := by
    exact ⟨decide_eq_false (Int.not_lt.mpr legal.2.1),
      task.ready_of_total (fun _ => trivial) fun _ => trivial⟩
  kept alarm evaluators around task heap further sub legal within _ unmet asks _ := by
    obtain ⟨alike, inLimit, counted⟩ := legal
    obtain ⟨notReflective, notShallow⟩ := Bool.or_eq_false_iff.mp unmet
    cases asks with
    | part evaluator scope form depth =>
        have shallower : (bodies around : Int) ≤ depth := counted
        exact ⟨alike, inLimit, Int.le_trans shallower (Int.le_add_one (Int.le_refl _))⟩
    | member => exact ⟨alike, inLimit, trivial⟩
    | closure evaluator scope form depth function args opened =>
        have shallower : (bodies around : Int) ≤ depth := counted
        rw [alike.limit_eq within.1] at opened
        refine .enter alike (Int.le_trans ?_ opened) ?_
        · exact Int.add_le_add_right shallower 1
        · exact Int.le_trans shallower (Int.le_add_one (Int.le_refl _))
    | host evaluator scope form depth function args opened =>
        have shallower : (bodies around : Int) ≤ depth := counted
        rw [alike.limit_eq within.1] at opened
        exact ⟨alike.inCall evaluator (depth + 1), inLimit, shallower, opened⟩
    | body id name params rest forms scope owner args depth =>
        refine ⟨alike, inLimit, ?_⟩
        have upTo := startsShallow_eq_false_iff.mp notShallow
        cases isForm : calledFrom? around with
        | none =>
            simp only [isForm, Option.getD_none] at counted
            exact counted
        | some formDepth =>
            have deepEnough := upTo formDepth isForm
            simp only [isForm, Option.getD_some] at counted
            change (bodies (.enter _ args depth :: around) : Int) ≤ depth + 1
            omega
    | back => exact ⟨alike, inLimit, counted⟩
    | start id name params rest forms scope owner args =>
        cases isInnermost : innermostForm? around with
        | none =>
            simp only [isInnermost] at counted
            obtain ⟨noBodies, outermost⟩ := counted
            refine .enter alike ?_ ?_
            · change (bodies around : Int) + 1 ≤ limit
              omega
            · change (bodies around : Int) ≤ ((innermostForm? around).map Prod.snd).getD _
              rw [isInnermost, noBodies]
              exact outermost owner
        | some innermost =>
            obtain ⟨evaluator, depth⟩ := innermost
            simp only [isInnermost] at counted
            refine .enter alike ?_ ?_
            · change (bodies around : Int) + 1 ≤ limit
              omega
            · change (bodies around : Int) ≤ ((innermostForm? around).map Prod.snd).getD _
              rw [isInnermost]
              exact counted.1
    | reflection function args isReflection =>
        exact absurd isReflection (not_isReflection notReflective)

/-! ## Calls between pieces of work -/

/-- A heap in which all evaluators have the same limit and none is inside a call, and in
which everything belongs to one of them. -/
structure Uniform (limit : Int) (heap : Heap) : Prop where
  states : ∀ (id : Nat) (state : EvaluatorState), heap.evaluators[id]? = some state →
    state.config.maxDepth = limit ∧ state.hostDepth = 0
  within : heap.Within (ownedBelow heap.evaluators.size)

variable {heap : Heap}

theorem Uniform.alike
    (uniform : Uniform limit heap) :
    Alike limit heap.evaluators.size heap.evaluators :=
  ⟨rfl, fun id state isState => (uniform.states id state isState).1⟩

theorem Uniform.hostDepth_eq
    (uniform : Uniform limit heap) (evaluator : Nat) :
    hostDepthIn heap.evaluators evaluator = 0 := by
  simp only [hostDepthIn, Heap.hostDepth, Heap.equip_evaluators]
  split
  · exact (uniform.states evaluator _ ‹_›).2
  · rfl

/-- In a call, bodies nest no deeper than the limit as long as no closure that is called
back starts at a smaller depth than the form that made the call; and none does as long as
only closures of the same evaluator are called back. -/
theorem Uniform.call_bounded
    (uniform : Uniform limit heap) (positive : 1 ≤ limit)
    {function : Value} {args : List Value}
    (within : function.Within (ownedBelow heap.evaluators.size))
    (argsWithin : Value.AllWithin (ownedBelow heap.evaluators.size) args) :
    (NeverMeets (isReflective.or startsShallow) (.call function args) heap →
        NeverMeets (deeper limit) (.call function args) heap) ∧
      (NeverMeets (isReflective.or isForeign) (.call function args) heap →
        NeverMeets (isReflective.or startsShallow) (.call function args) heap) := by
  have taskWithin : (Task.call function args).Within (ownedBelow heap.evaluators.size) :=
    ⟨within, argsWithin⟩
  constructor
  · intro never
    refine (Regime.run_of_never (oneLimit_governs positive _) uniform.within taskWithin ?_
      never).1
    have outermost (evaluator : Nat) : 0 ≤ hostDepthIn heap.evaluators evaluator :=
      Int.le_of_eq (uniform.hostDepth_eq evaluator).symm
    exact ⟨uniform.alike, Int.le_trans Int.one_nonneg positive, rfl, outermost⟩
  · intro never
    refine (Regime.run_of_never (sameOwner_governs _) uniform.within taskWithin ?_ never).1
    exact ⟨rfl, fun _ _ isForm => nomatch isForm⟩

end Depth

end CueScript
