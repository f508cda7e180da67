import CueScript.Action
import CueScript.Proofs.Run.Reach

/-!
# Runs that agree

Two runs are compared, the left and the right one.  A `Pact` says what both keep to: the
bounds within which values and the heap stay, the evaluators each of them has, and the
faults after which nothing is said any more.

`Agree pact post run` says of two actions `run .left` and `run .right` that, from one
heap within the bounds on, they end alike: with the same value, of which `post` holds,
or with the same fault, and with one heap that the first one has become.  The evaluators
are then what they were before.  There is a rule for every way in which actions are
made, so that functions which call a worker are followed through their definitions.

With the same action on both sides, `Agree` says that the action keeps to the bounds.
-/

namespace CueScript

/-- The two runs that are compared. -/
inductive Side where
  | left
  | right

/-- What two runs keep to. -/
structure Pact where
  bounds : Bounds
  evaluators : Side → Array EvaluatorState
  /-- Whether special forms of the wrong shape may be met. -/
  misshapen : Prop
  /-- The faults with which a comparison ends, where they occur on a side. -/
  cut : Side → Fault → Prop

namespace Pact

/-- Whether a fault may be met. -/
def Allows (pact : Pact) : Fault → Prop
  | .malformed _ => pact.misshapen
  | _ => True

/-- The same pact while an evaluator is inside a call at some depth. -/
def inCall (pact : Pact) (evaluator : Nat) (depth : Int) : Pact :=
  { pact with
    evaluators := fun side =>
      (pact.evaluators side).modify evaluator fun state => { state with hostDepth := depth } }

end Pact

variable {α β : Type}

/-- How two runs from one heap end that agree. -/
inductive Ends (pact : Pact) (post : α → Prop) (before : Heap) :
    Except Fault α × Heap → Except Fault α × Heap → Prop
  | value (result : α) (after : Heap)
      (becomes : Heap.Becomes pact.bounds before after)
      (fits : post result) :
      Ends pact post before (.ok result, after.equip (pact.evaluators .left))
        (.ok result, after.equip (pact.evaluators .right))
  | fault (fault : Fault) (after : Heap)
      (becomes : Heap.Becomes pact.bounds before after)
      (allowed : pact.Allows fault) :
      Ends pact post before (.error fault, after.equip (pact.evaluators .left))
        (.error fault, after.equip (pact.evaluators .right))
  | cutLeft (fault : Fault) (heap : Heap) (other : Except Fault α × Heap)
      (isCut : pact.cut .left fault) :
      Ends pact post before (.error fault, heap) other
  | cutRight (fault : Fault) (heap : Heap) (other : Except Fault α × Heap)
      (isCut : pact.cut .right fault) :
      Ends pact post before other (.error fault, heap)

/-- Whether two actions agree from any heap within the bounds on. -/
def Agree (pact : Pact) (post : α → Prop) (run : Side → Action α) : Prop :=
  ∀ heap : Heap, heap.Within pact.bounds →
    Ends pact post heap ((run .left).perform (heap.equip (pact.evaluators .left)))
      ((run .right).perform (heap.equip (pact.evaluators .right)))

namespace Action

/-! ## Performing actions -/

@[simp]
theorem perform_throw (fault : Fault) (heap : Heap) :
    (throw fault : Action α).perform heap = (.error fault, heap) := rfl

theorem perform_bind (first : Action α) (next : α → Action β) (heap : Heap) :
    (first >>= next).perform heap =
      match first.perform heap with
      | (.ok value, after) => (next value).perform after
      | (.error fault, after) => (.error fault, after) := by
  unfold perform ExceptT.run StateT.run
  simp only [bind, ExceptT.bind, ExceptT.mk, ExceptT.bindCont, StateT.bind]
  cases first heap with
  | mk outcome after => cases outcome <;> rfl

theorem perform_bind_ok
    {first : Action α} {next : α → Action β} {heap after : Heap} {value : α}
    (ran : first.perform heap = (.ok value, after)) :
    (first >>= next).perform heap = (next value).perform after := by
  rw [perform_bind, ran]

theorem perform_bind_error
    {first : Action α} {next : α → Action β} {heap after : Heap} {fault : Fault}
    (ran : first.perform heap = (.error fault, after)) :
    (first >>= next).perform heap = (.error fault, after) := by
  rw [perform_bind, ran]

@[simp]
theorem perform_get_bind (next : Heap → Action β) (heap : Heap) :
    ((get : Action Heap) >>= next).perform heap = (next heap).perform heap := rfl

@[simp]
theorem perform_change (operation : Heap → α × Heap) (heap : Heap) :
    (change operation).perform heap = (.ok (operation heap).1, (operation heap).2) := rfl

@[simp]
theorem perform_modify (revise : Heap → Heap) (heap : Heap) :
    (modify revise : Action PUnit).perform heap = (.ok ⟨⟩, revise heap) := rfl

end Action

namespace Agree

variable {pact : Pact}

/-! ## Rules -/

theorem pure
    {post : α → Prop} {value : α}
    (fits : post value) :
    Agree pact post fun _ => pure value :=
  fun heap within => .value value heap within.becomesItself fits

theorem throw
    {post : α → Prop} {fault : Fault}
    (allowed : pact.Allows fault) :
    Agree pact post fun _ => throw fault :=
  fun heap within => .fault fault heap within.becomesItself allowed

theorem fail
    {post : α → Prop} {failure : Failure} :
    Agree pact post fun _ => Action.fail failure :=
  throw trivial

theorem weaken
    {post further : α → Prop} {run : Side → Action α}
    (agree : Agree pact post run)
    (implies : ∀ value, post value → further value) :
    Agree pact further run := by
  intro heap within
  have ends := agree heap within
  generalize (run .left).perform _ = left at ends ⊢
  generalize (run .right).perform _ = right at ends ⊢
  cases ends with
  | value result after becomes fits =>
      exact .value result after becomes (implies result fits)
  | fault fault after becomes allowed => exact .fault fault after becomes allowed
  | cutLeft fault after _ isCut => exact .cutLeft fault after _ isCut
  | cutRight fault after _ isCut => exact .cutRight fault after _ isCut

/-- What follows may rely on what holds of the value. -/
theorem bind
    {middle : α → Prop} {post : β → Prop}
    {first : Side → Action α} {next : Side → α → Action β}
    (head : Agree pact middle first)
    (tail : ∀ value, middle value → Agree pact post fun side => next side value) :
    Agree pact post fun side => first side >>= next side := by
  intro heap within
  have ends := head heap within
  rw [Action.perform_bind, Action.perform_bind]
  generalize (first .left).perform _ = left at ends ⊢
  generalize (first .right).perform _ = right at ends ⊢
  cases ends with
  | value result after becomes fits =>
      have later := tail result fits after becomes.within
      simp only
      generalize (next .left result).perform _ = left at later ⊢
      generalize (next .right result).perform _ = right at later ⊢
      cases later with
      | value final last further fits =>
          exact .value final last (becomes.trans further) fits
      | fault fault last further allowed =>
          exact .fault fault last (becomes.trans further) allowed
      | cutLeft fault last _ isCut => exact .cutLeft fault last _ isCut
      | cutRight fault last _ isCut => exact .cutRight fault last _ isCut
  | fault fault after becomes allowed => exact .fault fault after becomes allowed
  | cutLeft fault after _ isCut => exact .cutLeft fault after _ isCut
  | cutRight fault after _ isCut => exact .cutRight fault after _ isCut

/-- The heap is looked at. -/
theorem get_bind
    {post : β → Prop} {next : Side → Heap → Action β}
    (tail : ∀ heap : Heap, heap.Within pact.bounds →
      Agree pact post fun side => next side (heap.equip (pact.evaluators side))) :
    Agree pact post fun side => (get : Action Heap) >>= next side :=
  fun heap within => tail heap within heap within

/-- The heap changes in a way that does not depend on evaluators. -/
theorem change
    {post : α → Prop} {operation : Heap → α × Heap}
    (independent : ∀ (heap : Heap) (evaluators : Array EvaluatorState),
      operation (heap.equip evaluators) =
        ((operation heap).1, (operation heap).2.equip evaluators))
    (fits : ∀ heap : Heap, heap.Within pact.bounds →
      post (operation heap).1 ∧ Heap.Becomes pact.bounds heap (operation heap).2) :
    Agree pact post fun _ => Action.change operation := by
  intro heap within
  obtain ⟨result, becomes⟩ := fits heap within
  rw [Action.perform_change, Action.perform_change, independent, independent]
  exact .value _ _ becomes result

theorem modify
    {revise : Heap → Heap}
    (independent : ∀ (heap : Heap) (evaluators : Array EvaluatorState),
      revise (heap.equip evaluators) = (revise heap).equip evaluators)
    (fits : ∀ heap : Heap, heap.Within pact.bounds →
      Heap.Becomes pact.bounds heap (revise heap)) :
    Agree pact (fun _ => True) fun _ => (modify revise : Action PUnit) := by
  intro heap within
  rw [Action.perform_modify, Action.perform_modify, independent, independent]
  exact .value _ _ (fits heap within) trivial

theorem ofExcept
    {post : α → Prop} {result : Except Failure α}
    (fits : ∀ value, result = .ok value → post value) :
    Agree pact post fun _ => Action.ofExcept result := by
  cases result with
  | ok value => exact pure (fits value rfl)
  | error failure => exact fail

theorem reading
    {post : α → Prop} {operation : Heap → Except Failure α}
    (independent : ∀ (heap : Heap) (evaluators : Array EvaluatorState),
      operation (heap.equip evaluators) = operation heap)
    (fits : ∀ heap : Heap, heap.Within pact.bounds →
      ∀ value, operation heap = .ok value → post value) :
    Agree pact post fun _ => Action.reading operation := by
  refine get_bind fun heap within => ?_
  simp only [independent]
  exact ofExcept (fits heap within)

/-! ## Actions that read and change the heap -/

theorem newId :
    Agree pact (fun birth => ∀ items, pact.bounds.Lists birth items) fun _ => Action.newId :=
  change (fun _ _ => rfl) fun _ within =>
    ⟨fun _ => ⟨within.freshBirths _ (Nat.le_refl _), fun item _ =>
      within.freshContents _ item (Nat.le_refl _)⟩, within.newBirth⟩

theorem newFloat (number : Binary64) :
    Agree pact (Value.Within pact.bounds) fun _ => Action.newFloat number := by
  unfold Action.newFloat
  split
  · exact bind newId fun _ _ => pure trivial
  · exact pure trivial

theorem newList
    {items : List Value} (within : Value.AllWithin pact.bounds items) :
    Agree pact (Value.Within pact.bounds) fun _ => Action.newList items :=
  bind newId fun _ lists => pure ⟨lists items, within⟩

theorem newMap
    {entries : ValueEntries} (within : Value.EntriesWithin pact.bounds entries) :
    Agree pact (Value.Within pact.bounds) fun _ => Action.newMap entries :=
  bind newId fun _ lists => pure ⟨(lists []).1, within⟩

theorem current
    {value : Value} (within : value.Within pact.bounds) :
    Agree pact (Value.Within pact.bounds) fun _ => Action.current value := by
  refine get_bind fun heap heapWithin => ?_
  simp only [Heap.current_equip]
  exact pure (heapWithin.current within)

theorem currentItems
    {items : List Value} (within : Value.AllWithin pact.bounds items) :
    Agree pact (Value.AllWithin pact.bounds) fun _ => Action.currentItems items := by
  refine get_bind fun heap heapWithin => ?_
  simp only [Heap.currentItems_equip]
  exact pure (heapWithin.currentItems within)

/-- What is still to come of a list are items that it has, now or from the start. -/
theorem upcoming
    {birth done : Nat} {rest : List Value} {fits : Value → Prop}
    (restFits : ∀ item ∈ rest, fits item)
    (leftFits : ∀ (heap : Heap) (left : List Value), heap.Within pact.bounds →
      heap.left? birth = some left → ∀ item ∈ left, fits item) :
    Agree pact (fun items => ∀ item ∈ items, fits item)
      fun _ => Action.upcoming birth done rest := by
  refine get_bind fun heap heapWithin => ?_
  simp only [Heap.left_equip]
  cases isLeft : heap.left? birth with
  | none => exact pure restFits
  | some left =>
      exact pure fun item member =>
        leftFits heap left heapWithin isLeft item (List.mem_of_mem_drop member)

theorem upcomingWithin
    {birth done : Nat} {rest : List Value}
    (known : pact.bounds.births birth)
    (within : Value.AllWithin pact.bounds rest) :
    Agree pact (Value.AllWithin pact.bounds) fun _ => Action.upcoming birth done rest := by
  refine weaken (upcoming (Value.allWithin_iff.mp within) ?_) fun _ => Value.allWithin_iff.mpr
  intro heap left heapWithin isLeft
  exact Value.allWithin_iff.mp (heapWithin.losses birth left known isLeft).2

theorem equal
    {a b : Value} (left : a.Within pact.bounds) (right : b.Within pact.bounds) :
    Agree pact (fun _ => True) fun _ => Action.equal a b :=
  bind (current left) fun _ _ => bind (current right) fun _ _ => pure trivial

theorem shown (value : Value) :
    Agree pact (fun _ => True) fun _ => Action.shown value :=
  reading (fun _ evaluators => by rw [Heap.shown_equip]) fun _ _ _ _ => trivial

theorem source (value : Value) :
    Agree pact (fun _ => True) fun _ => Action.source value :=
  reading (fun _ evaluators => by rw [Heap.source_equip]) fun _ _ _ _ => trivial

theorem display (value : Value) :
    Agree pact (fun _ => True) fun _ => Action.display value :=
  reading (fun _ evaluators => by rw [Heap.display_equip]) fun _ _ _ _ => trivial

theorem newVariables
    {vars : ValueEntries} (within : Value.EntriesWithin pact.bounds vars) :
    Agree pact (Variables.Within pact.bounds) fun _ => Action.newVariables vars := by
  have made : Agree pact pact.bounds.tables fun _ =>
      Action.change fun heap => heap.openTable vars :=
    change (fun _ _ => rfl) fun heap heapWithin =>
      ⟨heapWithin.freshTables _ (Nat.le_refl _), heapWithin.openTable within⟩
  exact bind made fun _ known => pure known

theorem scopeInside
    {parent : Nat} {vars : Variables}
    (known : pact.bounds.scopes parent) (within : vars.Within pact.bounds) :
    Agree pact pact.bounds.scopes fun _ => Action.scopeInside parent vars := by
  refine get_bind fun heap _ => ?_
  change Agree pact pact.bounds.scopes fun _ =>
    if heap.canOpenInside parent then
      Action.change fun heap => heap.openScope vars (some parent)
    else
      Action.fail .noAttribute
  split
  · refine change (fun _ _ => rfl) fun heap heapWithin => ?_
    refine heapWithin.openScope within fun id same => ?_
    cases same
    exact known
  · exact fail

theorem scopeOf
    {value : Value} (within : value.Within pact.bounds) :
    Agree pact pact.bounds.scopes fun _ => Action.scopeOf value := by
  unfold Action.scopeOf
  split
  · exact pure within.1
  · refine change (fun _ _ => rfl) fun heap heapWithin => ?_
    refine heapWithin.openScope within fun id same => ?_
    cases same

theorem childScope
    {parent : Nat} {vars : ValueEntries}
    (known : pact.bounds.scopes parent) (within : Value.EntriesWithin pact.bounds vars) :
    Agree pact pact.bounds.scopes fun _ => Action.childScope parent vars :=
  bind (newVariables within) fun _ varsWithin => scopeInside known varsWithin

theorem define
    {scope : Nat} {key value : Value}
    (known : pact.bounds.scopes scope)
    (keyWithin : key.Within pact.bounds) (valueWithin : value.Within pact.bounds) :
    Agree pact (fun _ => True) fun _ => Action.define scope key value := by
  let fits (pair : Nat × ValueEntries) : Prop :=
    pact.bounds.tables pair.1 ∧ Value.EntriesWithin pact.bounds pair.2
  have found : Agree pact fits fun _ =>
      Action.reading fun heap => heap.defined scope key value := by
    refine reading (fun heap evaluators => Heap.defined_equip heap evaluators _ _ _) ?_
    exact fun heap heapWithin pair isPair =>
      heapWithin.defined known keyWithin valueWithin isPair
  refine bind found fun pair ⟨tableKnown, revised⟩ => ?_
  exact modify (fun _ _ => rfl) fun heap heapWithin => heapWithin.setTable tableKnown revised

theorem lookup
    {scope : Nat} {key : Value} (known : pact.bounds.scopes scope) :
    Agree pact (Value.Within pact.bounds) fun _ => Action.lookup scope key := by
  let fits (found : Option Value) : Prop :=
    ∀ value, found = some value → value.Within pact.bounds
  have found : Agree pact fits fun _ =>
      Action.reading fun heap => heap.lookup? scope key := by
    refine reading (fun heap evaluators => Heap.lookup_equip heap evaluators _ _) ?_
    exact fun heap heapWithin result isResult => heapWithin.lookup known isResult
  refine bind found fun result resultFits => ?_
  cases result with
  | none => exact bind (display key) fun _ _ => throw trivial
  | some value => exact pure (resultFits value rfl)

end Agree

/-! ## Inside calls -/

namespace Action

theorem perform_atHostDepth
    (evaluator : Nat) (depth : Int) (action : Action α) (heap : Heap) :
    (atHostDepth evaluator depth action).perform heap =
      ((action.perform (heap.setHostDepth evaluator depth)).1,
        (action.perform (heap.setHostDepth evaluator depth)).2.setHostDepth evaluator
          (heap.hostDepth evaluator)) := by
  have observed : ∀ heap : Heap, (observe action).perform heap =
      (.ok (action.perform heap).1, (action.perform heap).2) := fun _ => rfl
  unfold atHostDepth
  rw [perform_get_bind, perform_bind_ok (perform_modify _ _), perform_bind_ok (observed _),
    perform_bind_ok (perform_modify _ _)]
  cases (action.perform (heap.setHostDepth evaluator depth)).1 <;> rfl

end Action

/-- The depth that was there before comes back. -/
theorem modify_hostDepth_restores
    (evaluators : Array EvaluatorState) (heap : Heap) (evaluator : Nat) (depth : Int) :
    (evaluators.modify evaluator fun state => { state with hostDepth := depth }).modify
        evaluator (fun state =>
          { state with hostDepth := (heap.equip evaluators).hostDepth evaluator }) =
      evaluators := by
  apply Array.ext
  · simp
  · intro index before after
    simp only [Array.getElem_modify]
    split
    · rename_i same
      subst same
      simp [Heap.hostDepth, after]
    · rfl

namespace Agree

variable {pact : Pact}

/-- A call is made at some depth of an evaluator. -/
theorem atHostDepth
    {post : α → Prop} {evaluator : Nat} {depth : Int} {run : Side → Action α}
    (agree : Agree (pact.inCall evaluator depth) post run) :
    Agree pact post fun side => Action.atHostDepth evaluator depth (run side) := by
  intro heap within
  have ends := agree heap within
  have equipped : ∀ side,
      (heap.equip (pact.evaluators side)).setHostDepth evaluator depth =
        heap.equip ((pact.inCall evaluator depth).evaluators side) := fun _ => rfl
  have restored : ∀ (after : Heap) side,
      (after.equip ((pact.inCall evaluator depth).evaluators side)).setHostDepth evaluator
          ((heap.equip (pact.evaluators side)).hostDepth evaluator) =
        after.equip (pact.evaluators side) := by
    intro after side
    have same := modify_hostDepth_restores (pact.evaluators side) heap evaluator depth
    exact congrArg after.equip same
  rw [Action.perform_atHostDepth, Action.perform_atHostDepth, equipped, equipped]
  generalize (run .left).perform _ = left at ends ⊢
  generalize (run .right).perform _ = right at ends ⊢
  cases ends with
  | value result after becomes fits =>
      rw [restored, restored]
      exact .value result after becomes fits
  | fault fault after becomes allowed =>
      rw [restored, restored]
      exact .fault fault after becomes allowed
  | cutLeft fault after _ isCut => exact .cutLeft fault _ _ isCut
  | cutRight fault after _ isCut => exact .cutRight fault _ _ isCut

end Agree

/-! ## One run -/

/-- How an action ends that keeps to bounds. -/
structure Action.Keeps (bounds : Bounds) (post : α → Prop) (action : Action α) (heap : Heap) :
    Prop where
  evaluators : (action.perform heap).2.evaluators = heap.evaluators
  becomes : Heap.Becomes bounds heap (action.perform heap).2
  value : ∀ value, (action.perform heap).1 = .ok value → post value

theorem Action.Keeps.congr
    {bounds : Bounds} {post : α → Prop} {action other : Action α} {heap : Heap}
    (keeps : action.Keeps bounds post heap)
    (same : action.perform heap = other.perform heap) :
    other.Keeps bounds post heap :=
  ⟨same ▸ keeps.evaluators, same ▸ keeps.becomes, same ▸ keeps.value⟩

/-- What follows may be told of what the first action did. -/
theorem Action.Keeps.bind_of_ran
    {bounds : Bounds} {middle : α → Prop} {post : β → Prop}
    {first : Action α} {next : α → Action β} {heap : Heap}
    (keeps : first.Keeps bounds middle heap)
    (tail : ∀ (value : α) (after : Heap), first.perform heap = (.ok value, after) →
      middle value → after.Within bounds → after.evaluators = heap.evaluators →
        (next value).Keeps bounds post after) :
    (first >>= next).Keeps bounds post heap := by
  obtain ⟨sameEvaluators, becomes, fits⟩ := keeps
  rcases ran : first.perform heap with ⟨outcome, after⟩
  rw [ran] at sameEvaluators becomes fits
  cases outcome with
  | error fault =>
      have same := @Action.perform_bind_error _ _ _ next _ _ _ ran
      constructor
      · rw [same]
        exact sameEvaluators
      · rw [same]
        exact becomes
      · rw [same]
        exact fun _ isOk => nomatch isOk
  | ok value =>
      have same := @Action.perform_bind_ok _ _ _ next _ _ _ ran
      have later := tail value after ran (fits value rfl) becomes.within sameEvaluators
      constructor
      · rw [same, later.evaluators]
        exact sameEvaluators
      · rw [same]
        exact becomes.trans later.becomes
      · rw [same]
        exact later.value

theorem Action.Keeps.bind
    {bounds : Bounds} {middle : α → Prop} {post : β → Prop}
    {first : Action α} {next : α → Action β} {heap : Heap}
    (keeps : first.Keeps bounds middle heap)
    (tail : ∀ (value : α) (after : Heap), middle value → after.Within bounds →
      (next value).Keeps bounds post after) :
    (first >>= next).Keeps bounds post heap :=
  keeps.bind_of_ran fun value after _ fits within _ => tail value after fits within

theorem Action.Keeps.pure
    {bounds : Bounds} {post : α → Prop} {value : α} {heap : Heap}
    (within : heap.Within bounds) (fits : post value) :
    (Pure.pure value : Action α).Keeps bounds post heap where
  evaluators := rfl
  becomes := within.becomesItself
  value := by
    rintro _ ⟨⟩
    exact fits

/-- What one run keeps to that is compared with nothing else. -/
def Pact.alone (bounds : Bounds) (evaluators : Array EvaluatorState) : Pact where
  bounds := bounds
  evaluators _ := evaluators
  misshapen := True
  cut _ _ := False

/-- An action that agrees with itself keeps to the bounds. -/
theorem Agree.keeps
    {bounds : Bounds} {post : α → Prop} {action : Action α} {heap : Heap}
    (agree : Agree (.alone bounds heap.evaluators) post fun _ => action)
    (within : heap.Within bounds) :
    action.Keeps bounds post heap := by
  have ends : Ends (.alone bounds heap.evaluators) post heap (action.perform heap)
      (action.perform heap) :=
    agree heap within
  rcases ending : action.perform heap with ⟨outcome, final⟩
  rw [ending] at ends
  have keeps (evaluators : final.evaluators = heap.evaluators)
      (becomes : Heap.Becomes bounds heap final)
      (value : ∀ value, outcome = .ok value → post value) :
      action.Keeps bounds post heap := by
    constructor
    · rw [ending]
      exact evaluators
    · rw [ending]
      exact becomes
    · rw [ending]
      exact value
  cases ends with
  | value result after becomes fits =>
      refine keeps rfl (becomes.equip heap.evaluators) ?_
      rintro _ ⟨⟩
      exact fits
  | fault fault after becomes allowed =>
      exact keeps rfl (becomes.equip heap.evaluators) fun _ same => nomatch same
  | cutLeft fault after other isCut => exact isCut.elim
  | cutRight fault after other isCut => exact isCut.elim

end CueScript
