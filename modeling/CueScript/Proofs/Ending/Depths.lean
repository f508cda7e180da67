import CueScript.Proofs.Ending.Settling

/-!
# Depths grow

If all closures and evaluators that can be reached are those of one evaluator, then each
form is evaluated deeper than the one inside of which that happens.  For the host depth of
the evaluator is the depth of the innermost form under way, and it is from there that a
closure goes on which a built-in function calls back.
-/

namespace CueScript

open Value Depth Eval

namespace Ending

/-! ## Whose closures there are -/

/-- What a body can reach from a heap on, when all closures and evaluators there are those
of its own evaluator. -/
structure ReachesOwn (bounds : Bounds) (site : Site) (forms : List Value) (heap : Heap) :
    Prop where
  within : heap.Within bounds
  formsWithin : AllWithin bounds forms
  scope : bounds.scopes site.scope
  evaluator : bounds.evaluators site.evaluator
  only : ∀ id, bounds.evaluators id → id = site.evaluator
  stores : ∀ id, bounds.stores id → id < heap.stores.size
  evaluatorKnown : site.evaluator < heap.evaluators.size
  unnumbered : ∀ items, bounds.Lists 0 items
  total : ∀ item, bounds.code item
  losable : ∀ birth, bounds.losable birth
  escapes : bounds.escapes

theorem ReachesOwn.forms
    {bounds : Bounds} {site : Site} {forms : List Value} {heap : Heap}
    (reaches : ReachesOwn bounds site forms heap) :
    ∀ item ∈ forms,
      (Task.evaluate site.evaluator site.scope item site.depth).Within bounds :=
  fun item member => ⟨reaches.evaluator, reaches.scope,
    allWithin_iff.mp reaches.formsWithin item member, reaches.total item⟩

/-- The limit that some evaluators give one of them. -/
def limitIn (evaluators : Array EvaluatorState) (evaluator : Nat) : Int :=
  (Heap.empty.equip evaluators).maxDepth evaluator

theorem limitIn_modify (evaluators : Array EvaluatorState) (evaluator other : Nat) (depth : Int) :
    limitIn (evaluators.modify other fun state => { state with hostDepth := depth }) evaluator =
      limitIn evaluators evaluator := by
  have same : (Heap.empty.equip
      (evaluators.modify other fun state => { state with hostDepth := depth })).config evaluator =
        (Heap.empty.equip evaluators).config evaluator := by
    simp only [Heap.config, Heap.equip_evaluators, Array.getElem?_modify]
    by_cases isOther : other = evaluator
    · rw [if_pos isOther]
      cases evaluators[evaluator]? <;> rfl
    · rw [if_neg isOther]
  exact congrArg Config.maxDepth same

/-! ## Depths grow -/

/-- What holds of a piece of work while all closures are those of one evaluator. -/
def GoesDeeper (owner : Nat) (limit : Int) (evaluators : Array EvaluatorState)
    (around : List Task) (task : Task) : Prop :=
  owner < evaluators.size ∧ limitIn evaluators owner = limit ∧
    ∀ evaluator outer, innermostForm? around = some (evaluator, outer) →
      match task with
      | .evaluate _ _ _ depth => outer < depth
      | .read .. => True
      | .enter _ _ depth => outer ≤ depth
      | .call .. => hostDepthIn evaluators owner = outer + 1

/-- The regime of closures of one evaluator. -/
def ownDepths (bounds : Bounds) (owner : Nat) (limit : Int) : Regime :=
  ⟨bounds, True, GoesDeeper owner limit⟩

section Regime

variable {bounds : Bounds} {owner count : Nat} {limit : Int}

theorem known_of_goneThrough
    {task : Task} {id : Nat} (within : task.Within bounds)
    (isThrough : storeGoneThrough? task = some id) :
    bounds.stores id := by
  have ofLast {args : List Value} (argsWithin : AllWithin bounds args)
      (isLast : lastStore? args = some id) : bounds.stores id := by
    unfold lastStore? at isLast
    split at isLast
    · rename_i last found
      cases isLast
      exact allWithin_iff.mp argsWithin _ (List.mem_of_getLast? found)
    · cases isLast
  unfold storeGoneThrough? at isThrough
  split at isThrough
  · exact ofLast within.2 isThrough
  · exact ofLast within.2 isThrough
  · cases isThrough

/-- Where nothing keeps evaluation from ending, there is nothing because of which it might
not settle. -/
theorem ownDepths_governs
    (only : ∀ id, bounds.evaluators id → id = owner)
    (stores : ∀ id, bounds.stores id → id < count)
    (unnumbered : ∀ items, bounds.Lists 0 items)
    (total : ∀ item, bounds.code item) (losable : ∀ birth, bounds.losable birth)
    (escapes : bounds.escapes) :
    (ownDepths bounds owner limit).Governs outside (unsettled limit count) where
  grammar := Bounds.grammar_of_total unnumbered total escapes
  spared evaluators around task heap legal within _ unmet := by
    obtain ⟨-, isLimit, depths⟩ := legal
    refine ⟨?_, task.ready_of_total total losable⟩
    have deeper : isNoDeeper (task :: around) (heap.equip evaluators) = false := by
      cases task with
      | evaluate evaluator scope item depth =>
          cases isForm : innermostForm? around with
          | none => simp only [isNoDeeper, isForm]
          | some innermost =>
              have isDeeper : innermost.2 < depth := depths innermost.1 innermost.2 isForm
              simp only [isNoDeeper, isForm, decide_eq_false_iff_not, not_le]
              exact isDeeper
      | _ => rfl
    have limited : hasOtherLimit limit (task :: around) (heap.equip evaluators) = false := by
      cases task with
      | evaluate evaluator scope item depth =>
          have isOwner : evaluator = owner := only evaluator within.1
          subst isOwner
          simp only [hasOtherLimit, ne_eq, decide_eq_false_iff_not, not_not]
          exact isLimit
      | _ => rfl
    have known : isUnknown count (task :: around) (heap.equip evaluators) = false := by
      cases isThrough : storeGoneThrough? task with
      | none => simp only [isUnknown, isThrough]
      | some id =>
          simp only [isUnknown, isThrough, decide_eq_false_iff_not, not_le]
          exact stores id (known_of_goneThrough within isThrough)
    simp only [unsettled, Watch.or, deeper, limited, known, Bool.or_false]
    exact unmet
  kept alarm evaluators around task heap further sub legal within _ unmet asks _ := by
    obtain ⟨size, isLimit, depths⟩ := legal
    cases asks with
    | part evaluator scope form depth inside item =>
        refine ⟨size, isLimit, fun _ outer isForm => ?_⟩
        cases isForm
        exact Int.lt_succ depth
    | member => exact ⟨size, isLimit, fun _ _ _ => trivial⟩
    | closure evaluator scope form depth =>
        refine ⟨size, isLimit, fun _ outer isForm => ?_⟩
        cases isForm
        exact Int.le_of_lt (Int.lt_succ depth)
    | host evaluator scope form depth =>
        have isOwner : evaluator = owner := only evaluator within.1
        subst isOwner
        refine ⟨(Array.size_modify ..).symm ▸ size, ?_, fun _ outer isForm => ?_⟩
        · exact (limitIn_modify evaluators evaluator evaluator (depth + 1)).trans isLimit
        · cases isForm
          exact hostDepthIn_modify (depth + 1) size
    | body id name params rest forms scope other args depth =>
        refine ⟨size, isLimit, fun evaluator outer isForm => ?_⟩
        exact Int.lt_add_one_of_le (depths evaluator outer isForm)
    | back => exact ⟨size, isLimit, depths⟩
    | start id name params rest forms scope other args =>
        have isOwner : other = owner := only other within.1.2.2.2.1
        subst isOwner
        refine ⟨size, isLimit, fun evaluator outer isForm => ?_⟩
        have counted : hostDepthIn evaluators other = outer + 1 := depths evaluator outer isForm
        change outer ≤ hostDepthIn evaluators other
        rw [counted]
        exact Int.le_of_lt (Int.lt_succ outer)
    | reflection function args isReflection =>
        -- an operation of a closure or an evaluator is not among what is read of events
        simp only [outside, readsOthers, Watch.or, Bool.or_eq_false_iff] at unmet
        obtain ⟨⟨events, -⟩, -⟩ := unmet
        unfold Value.isReflection at isReflection
        split at isReflection
        · cases events
        · cases events
        · cases isReflection

end Regime

end Ending

end CueScript
