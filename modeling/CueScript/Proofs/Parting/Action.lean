import CueScript.Proofs.Parting.Heap

/-!
# Actions where scopes part

`Quiet parting post action` says of an action that opens no scope that it does the same in
both runs: with the same value, of which `post` holds, or with the same fault.

`Alongside parting post run` says of two actions `run .left` and `run .right` that they end
alike, if they are begun on heaps that fit the parting.  They may open scopes, so they end at
a later parting, of which `post` may tell.  Nothing is said where the left one stops with the
alarm.

There is a rule for every way in which actions are made.
-/

namespace CueScript

variable {α β : Type} {terms : Terms} {parting : Parting terms}

/-! ## Actions that open no scope -/

/-- How an action ends that opens no scope. -/
structure QuietEnd
    (parting : Parting terms) (post : α → Prop) (action : Action α) (heap : Heap) : Prop where
  same : action.perform (heap.rescope parting.right) =
    ((action.perform heap).1, (action.perform heap).2.rescope parting.right)
  fits : parting.Fits (action.perform heap).2
  holds : ∀ value, (action.perform heap).1 = .ok value → post value

/-- Whether an action does the same in both runs and opens no scope. -/
def Quiet (parting : Parting terms) (post : α → Prop) (action : Action α) : Prop :=
  ∀ heap, parting.Fits heap → QuietEnd parting post action heap

namespace Quiet

/-! ### Rules -/

theorem pure
    {post : α → Prop} {value : α} (holds : post value) :
    Quiet parting post (pure value) :=
  fun _ fits => ⟨rfl, fits, fun _ same => by cases same; exact holds⟩

theorem throw {post : α → Prop} {fault : Fault} :
    Quiet parting post (throw fault) :=
  fun _ fits => ⟨rfl, fits, fun _ same => by cases same⟩

theorem fail {post : α → Prop} {failure : Failure} :
    Quiet parting post (Action.fail failure) := throw

theorem weaken
    {post further : α → Prop} {action : Action α}
    (quiet : Quiet parting post action) (implies : ∀ value, post value → further value) :
    Quiet parting further action := fun heap fits =>
  { quiet heap fits with
    holds := fun value isValue => implies value ((quiet heap fits).holds value isValue) }

theorem bind
    {middle : α → Prop} {post : β → Prop} {first : Action α} {next : α → Action β}
    (head : Quiet parting middle first)
    (tail : ∀ value, middle value → Quiet parting post (next value)) :
    Quiet parting post (first >>= next) := by
  intro heap fits
  obtain ⟨same, later, holds⟩ := head heap fits
  rcases ran : first.perform heap with ⟨fault | value, after⟩
  · rw [ran] at same later
    have ended := @Action.perform_bind_error _ _ _ next _ _ _ ran
    have endedToo := @Action.perform_bind_error _ _ _ next _ _ _ same
    constructor
    · rw [ended, endedToo]
    · rw [ended]
      exact later
    · rw [ended]
      exact fun _ isOk => nomatch isOk
  · rw [ran] at same later holds
    obtain ⟨sameAfter, fitsAfter, holdsAfter⟩ := tail value (holds value rfl) after later
    have went := @Action.perform_bind_ok _ _ _ next _ _ _ ran
    have wentToo := @Action.perform_bind_ok _ _ _ next _ _ _ same
    constructor
    · rw [went, wentToo, sameAfter]
    · rw [went]
      exact fitsAfter
    · rw [went]
      exact holdsAfter

/-- The heap is looked at, but not at what tells the runs apart. -/
theorem get_bind
    {post : β → Prop} {next : Heap → Action β}
    (blind : ∀ heap : Heap, parting.Fits heap →
      next (heap.rescope parting.right) = next heap)
    (tail : ∀ heap : Heap, parting.Fits heap → Quiet parting post (next heap)) :
    Quiet parting post ((get : Action Heap) >>= next) := by
  intro heap fits
  obtain ⟨same, later, holds⟩ := tail heap fits heap fits
  constructor
  · rw [Action.perform_get_bind, Action.perform_get_bind, blind heap fits, same]
  · rw [Action.perform_get_bind]
    exact later
  · rw [Action.perform_get_bind]
    exact holds

theorem change
    {post : α → Prop} {operation : Heap → α × Heap}
    (blind : ∀ heap : Heap, operation (heap.rescope parting.right) =
      ((operation heap).1, (operation heap).2.rescope parting.right))
    (holds : ∀ heap : Heap, parting.Fits heap →
      post (operation heap).1 ∧ parting.Fits (operation heap).2) :
    Quiet parting post (Action.change operation) := by
  intro heap fits
  obtain ⟨result, later⟩ := holds heap fits
  refine ⟨?_, later, fun _ same => by cases same; exact result⟩
  rw [Action.perform_change, Action.perform_change, blind]

theorem modify
    {revise : Heap → Heap}
    (blind : ∀ heap : Heap, revise (heap.rescope parting.right) =
      (revise heap).rescope parting.right)
    (later : ∀ heap : Heap, parting.Fits heap → parting.Fits (revise heap)) :
    Quiet parting (fun _ => True) (modify revise : Action PUnit) :=
  fun heap fits => ⟨congrArg (Prod.mk (Except.ok PUnit.unit)) (blind heap), later heap fits,
    fun _ _ => trivial⟩

theorem ofExcept
    {post : α → Prop} {result : Except Failure α}
    (holds : ∀ value, result = .ok value → post value) :
    Quiet parting post (Action.ofExcept result) := by
  cases result with
  | ok value => exact pure (holds value rfl)
  | error failure => exact fail

theorem reading
    {post : α → Prop} {operation : Heap → Except Failure α}
    (blind : ∀ heap : Heap, parting.Fits heap →
      operation (heap.rescope parting.right) = operation heap)
    (holds : ∀ heap : Heap, parting.Fits heap →
      ∀ value, operation heap = .ok value → post value) :
    Quiet parting post (Action.reading operation) :=
  get_bind (fun heap fits => congrArg Action.ofExcept (blind heap fits))
    fun heap fits => ofExcept (holds heap fits)

/-! ### Actions that read and change the heap -/

theorem newId : Quiet parting (fun birth => ¬ terms.lists birth) Action.newId :=
  change (fun _ => rfl) fun _ fits => fits.newBirth

theorem newFloat (number : Binary64) :
    Quiet parting (Value.Within parting.bounds) (Action.newFloat number) := by
  unfold Action.newFloat
  split
  · exact bind newId fun _ _ => pure trivial
  · exact pure trivial

theorem newList
    {items : List Value} (known : Value.AllWithin parting.bounds items) :
    Quiet parting (Value.Within parting.bounds) (Action.newList items) :=
  bind newId fun _ other => pure ⟨Vocabulary.lists_bounds other items, known⟩

theorem newMap
    {entries : ValueEntries} (known : Value.EntriesWithin parting.bounds entries) :
    Quiet parting (Value.Within parting.bounds) (Action.newMap entries) :=
  bind newId fun _ _ => pure ⟨trivial, known⟩

theorem current
    {value : Value} (known : value.Within parting.bounds) :
    Quiet parting (Value.Within parting.bounds) (Action.current value) :=
  get_bind (fun _ _ => by rw [Heap.current_rescope]) fun _ fits => pure (fits.current known)

theorem currentItems
    {items : List Value} (known : Value.AllWithin parting.bounds items) :
    Quiet parting (Value.AllWithin parting.bounds) (Action.currentItems items) :=
  get_bind (fun _ _ => by rw [Heap.currentItems_rescope]) fun _ fits =>
    pure (fits.currentItems known)

/-- What is still to come of a list are items that it has, now or from the start. -/
theorem upcoming
    {birth done : Nat} {rest : List Value} {holds : Value → Prop}
    (restHold : ∀ item ∈ rest, holds item)
    (leftHold : ∀ (heap : Heap) (left : List Value), parting.Fits heap →
      heap.left? birth = some left → ∀ item ∈ left, holds item) :
    Quiet parting (fun items => ∀ item ∈ items, holds item)
      (Action.upcoming birth done rest) := by
  refine get_bind (fun _ _ => rfl) fun heap fits => ?_
  cases isLeft : heap.left? birth with
  | none => exact pure restHold
  | some left =>
      exact pure fun item member =>
        leftHold heap left fits isLeft item (List.mem_of_mem_drop member)

theorem upcomingWithin
    {birth done : Nat} {rest : List Value} (known : Value.AllWithin parting.bounds rest) :
    Quiet parting (Value.AllWithin parting.bounds) (Action.upcoming birth done rest) := by
  refine weaken (upcoming (Value.allWithin_iff.mp known) ?_) fun _ => Value.allWithin_iff.mpr
  exact fun heap left fits isLeft => Value.allWithin_iff.mp (fits.losses birth left isLeft).2

theorem equal
    {a b : Value} (left : a.Within parting.bounds) (right : b.Within parting.bounds) :
    Quiet parting (fun _ => True) (Action.equal a b) :=
  bind (current left) fun _ _ => bind (current right) fun _ _ => pure trivial

theorem shown (value : Value) : Quiet parting (fun _ => True) (Action.shown value) :=
  reading (fun _ _ => by rw [Heap.shown_rescope]) fun _ _ _ _ => trivial

theorem source (value : Value) : Quiet parting (fun _ => True) (Action.source value) :=
  reading (fun _ _ => by rw [Heap.source_rescope]) fun _ _ _ _ => trivial

theorem display (value : Value) : Quiet parting (fun _ => True) (Action.display value) :=
  reading (fun _ _ => by rw [Heap.display_rescope]) fun _ _ _ _ => trivial

theorem newVariables
    {vars : ValueEntries} (known : Value.EntriesWithin parting.bounds vars) :
    Quiet parting (fun made => ∃ table, made = Variables.table table)
      (Action.newVariables vars) := by
  have made : Quiet parting (fun _ => True) (Action.change fun heap => heap.openTable vars) :=
    change (fun _ => rfl) fun _ fits => ⟨trivial, fits.openTable known⟩
  exact bind made fun table _ => pure ⟨table, rfl⟩

theorem lookup
    {scope : Nat} {key : Value} (isShared : parting.shared scope) :
    Quiet parting (Value.Within parting.bounds) (Action.lookup scope key) := by
  have found : Quiet parting (Value.SomeWithin parting.bounds)
      (Action.reading fun heap => heap.lookup? scope key) :=
    reading (fun _ fits => fits.lookup_rescope isShared key) fun _ fits _ isFound =>
      fits.lookup isFound
  refine bind found fun result known => ?_
  cases result with
  | none => exact bind (display key) fun _ _ => throw
  | some value => exact pure (known value rfl)

theorem define
    {scope : Nat} {key value : Value} (alike : parting.SameVariables scope)
    (keyKnown : key.Within parting.bounds) (valueKnown : value.Within parting.bounds) :
    Quiet parting (fun _ => True) (Action.define scope key value) := by
  have found : Quiet parting (fun pair => Value.EntriesWithin parting.bounds pair.2)
      (Action.reading fun heap => heap.defined scope key value) :=
    reading (fun _ fits => fits.defined_rescope alike key value) fun _ fits _ isPair =>
      fits.defined keyKnown valueKnown isPair
  refine bind found fun pair revised => ?_
  exact modify (fun _ => rfl) fun heap fits => fits.setTable pair.1 revised

end Quiet

/-! ## Actions that open scopes -/

theorem Heap.openScope_inside
    {heap : Heap} {id : Nat} {scope : Scope} (isScope : heap.scopes[id]? = some scope)
    (vars : Variables) :
    heap.openScope vars (some id) =
      (heap.scopes.size,
        { heap with scopes := heap.scopes.push ⟨vars, id :: scope.outer⟩ }) := by
  simp only [Heap.openScope, isScope]

/-- How two runs end that began at a parting. -/
inductive Parting.Ends (parting : Parting terms) (post : Parting terms → α → Prop) :
    Except Fault α × Heap → Except Fault α × Heap → Prop
  | value (later : Parting terms) (result : α) (after : Heap) (becomes : parting.Later later)
      (fits : later.Fits after) (holds : post later result) :
      Ends parting post (.ok result, after) (.ok result, after.rescope later.right)
  | fault (later : Parting terms) (fault : Fault) (after : Heap) (becomes : parting.Later later)
      (fits : later.Fits after) :
      Ends parting post (.error fault, after) (.error fault, after.rescope later.right)
  | alarm (after : Heap) (other : Except Fault α × Heap) :
      Ends parting post (.error terms.alarm, after) other

/-- Whether two actions end alike from heaps on that fit a parting. -/
def Alongside (parting : Parting terms) (post : Parting terms → α → Prop)
    (run : Side → Action α) : Prop :=
  ∀ heap, parting.Fits heap →
    parting.Ends post ((run .left).perform heap)
      ((run .right).perform (heap.rescope parting.right))

theorem QuietEnd.ends
    {post : Parting terms → α → Prop} {action : Action α} {heap : Heap}
    (quiet : QuietEnd parting (post parting) action heap) :
    parting.Ends post (action.perform heap) (action.perform (heap.rescope parting.right)) := by
  obtain ⟨same, fits, holds⟩ := quiet
  rw [same]
  rcases ran : action.perform heap with ⟨fault | value, after⟩
  · rw [ran] at fits
    exact .fault parting fault after (.refl parting) fits
  · rw [ran] at fits holds
    exact .value parting value after (.refl parting) fits (holds value rfl)

/-- An action that does the same in both runs. -/
theorem Quiet.alongside
    {post : Parting terms → α → Prop} {action : Action α}
    (quiet : Quiet parting (post parting) action) :
    Alongside parting post fun _ => action :=
  fun heap fits => (quiet heap fits).ends

namespace Parting.Ends

/-- Runs go on from where others have ended. -/
theorem later
    {post : Parting terms → α → Prop} {before : Parting terms}
    {left right : Except Fault α × Heap} (becomes : before.Later parting)
    (ends : parting.Ends post left right) :
    before.Ends post left right := by
  cases ends with
  | value last result after further fits holds =>
      exact .value last result after (becomes.trans further) fits holds
  | fault last fault after further fits =>
      exact .fault last fault after (becomes.trans further) fits
  | alarm after => exact .alarm after _

theorem bind
    {middle : Parting terms → α → Prop} {post : Parting terms → β → Prop}
    {first other : Action α} {next further : α → Action β} {heap before : Heap}
    (head : parting.Ends middle (first.perform heap) (other.perform before))
    (tail : ∀ later value, parting.Later later → middle later value → ∀ after,
      later.Fits after → later.Ends post ((next value).perform after)
        ((further value).perform (after.rescope later.right))) :
    parting.Ends post ((first >>= next).perform heap)
      ((other >>= further).perform before) := by
  rw [Action.perform_bind, Action.perform_bind]
  generalize first.perform heap = left at head ⊢
  generalize other.perform before = right at head ⊢
  cases head with
  | value later result after becomes fits holds =>
      exact (tail later result becomes holds after fits).later becomes
  | fault later fault after becomes fits => exact .fault later fault after becomes fits
  | alarm after => exact .alarm after _

end Parting.Ends

namespace Alongside

/-! ### Rules -/

theorem weaken
    {post further : Parting terms → α → Prop} {run : Side → Action α}
    (alongside : Alongside parting post run)
    (implies : ∀ later value, parting.Later later → post later value → further later value) :
    Alongside parting further run := by
  intro heap fits
  have ends := alongside heap fits
  generalize (run .left).perform _ = left at ends ⊢
  generalize (run .right).perform _ = right at ends ⊢
  cases ends with
  | value later result after becomes fits holds =>
      exact .value later result after becomes fits (implies later result becomes holds)
  | fault later fault after becomes fits => exact .fault later fault after becomes fits
  | alarm after => exact .alarm after _

/-- What follows may rely on what holds of the value at the later parting. -/
theorem bind
    {middle : Parting terms → α → Prop} {post : Parting terms → β → Prop}
    {first : Side → Action α} {next : Side → α → Action β}
    (head : Alongside parting middle first)
    (tail : ∀ later value, parting.Later later → middle later value →
      Alongside later post fun side => next side value) :
    Alongside parting post fun side => first side >>= next side :=
  fun heap fits => (head heap fits).bind fun later value becomes holds after laterFits =>
    tail later value becomes holds after laterFits

/-- Nothing is opened before what follows. -/
theorem after
    {middle : α → Prop} {post : Parting terms → β → Prop}
    {first : Action α} {next : Side → α → Action β}
    (head : Quiet parting middle first)
    (tail : ∀ value, middle value → Alongside parting post fun side => next side value) :
    Alongside parting post fun side => first >>= next side := by
  intro heap fits
  obtain ⟨same, later, holds⟩ := head heap fits
  rw [Action.perform_bind, Action.perform_bind, same]
  rcases ran : first.perform heap with ⟨fault | value, after⟩
  · rw [ran] at later
    exact .fault parting fault after (.refl parting) later
  · rw [ran] at later holds
    exact tail value (holds value rfl) after later

/-- The heap is looked at, but not at what tells the runs apart. -/
theorem get_bind
    {post : Parting terms → β → Prop} {next : Side → Heap → Action β}
    (blind : ∀ heap : Heap, parting.Fits heap →
      next .right (heap.rescope parting.right) = next .right heap)
    (tail : ∀ heap : Heap, parting.Fits heap →
      Alongside parting post fun side => next side heap) :
    Alongside parting post fun side => (get : Action Heap) >>= next side := by
  intro heap fits
  have ends := tail heap fits heap fits
  rw [Action.perform_get_bind, Action.perform_get_bind, blind heap fits]
  exact ends

/-- A call is made at some depth of an evaluator. -/
theorem atHostDepth
    {post : Parting terms → α → Prop} {run : Side → Action α}
    (evaluator : Nat) (depth : Int) (alongside : Alongside parting post run) :
    Alongside parting post fun side => Action.atHostDepth evaluator depth (run side) := by
  intro heap fits
  have ends := alongside _ (fits.setHostDepth evaluator depth)
  rw [Action.perform_atHostDepth, Action.perform_atHostDepth, Heap.hostDepth_rescope]
  change parting.Ends post _ (((run .right).perform
    ((heap.setHostDepth evaluator depth).rescope parting.right)).1, _)
  generalize (run .left).perform _ = left at ends ⊢
  change parting.Ends post _ (_, ((run .right).perform
    ((heap.setHostDepth evaluator depth).rescope parting.right)).2.setHostDepth _ _)
  generalize (run .right).perform _ = right at ends ⊢
  cases ends with
  | value later result after becomes fits holds =>
      exact .value later result _ becomes (fits.setHostDepth evaluator _) holds
  | fault later fault after becomes fits =>
      exact .fault later fault _ becomes (fits.setHostDepth evaluator _)
  | alarm => exact .alarm _ _

/-! ### Scopes that are opened and shared -/

/-- A scope is opened that both runs share. -/
theorem openShared
    {vars : Variables} {parent : Option Nat} (varsKnown : vars.Within parting.bounds)
    (parentShared : ∀ id, parent = some id → parting.shared id) :
    Alongside parting (fun later scope => later.shared scope)
      fun _ => Action.change fun heap => heap.openScope vars parent := by
  intro heap fits
  have opened : ∃ outer, (∀ each ∈ outer, parting.shared each) ∧
      heap.openScope vars parent =
        (parting.left.size, { heap with scopes := parting.left.push ⟨vars, outer⟩ }) ∧
      (heap.rescope parting.right).openScope vars parent =
        (parting.right.size, heap.rescope (parting.right.push ⟨vars, outer⟩)) := by
    cases parent with
    | none =>
        refine ⟨[], by simp, ?_, rfl⟩
        rw [← fits.scopes]
        rfl
    | some id =>
        have isShared := parentShared id rfl
        obtain ⟨scope, isLeft, isRight, -, outerShared⟩ := parting.alike id isShared
        refine ⟨id :: scope.outer, List.forall_mem_cons.mpr ⟨isShared, outerShared⟩, ?_, ?_⟩
        · rw [Heap.openScope_inside ((fits.leftScope id).trans isLeft), fits.scopes]
        · exact Heap.openScope_inside isRight vars
  obtain ⟨outer, areShared, isLeft, isRight⟩ := opened
  rw [Action.perform_change, Action.perform_change, isLeft, isRight, parting.sameCount]
  exact .value (parting.share ⟨vars, outer⟩ varsKnown areShared) _ _
    (parting.later_share varsKnown areShared)
    (fits.later (parting.later_share varsKnown areShared)) (.inr rfl)

theorem scopeInside
    {parent : Nat} {vars : Variables}
    (isShared : parting.shared parent) (varsKnown : vars.Within parting.bounds) :
    Alongside parting (fun later scope => later.shared scope)
      fun _ => Action.scopeInside parent vars := by
  refine get_bind (fun _ fits => by rw [fits.canOpenInside_rescope isShared]) fun heap _ => ?_
  split
  · refine openShared varsKnown fun id same => ?_
    cases same
    exact isShared
  · exact Quiet.alongside .fail

theorem scopeOf
    {value : Value} (known : value.Within parting.bounds) :
    Alongside parting (fun later scope => later.shared scope)
      fun _ => Action.scopeOf value := by
  unfold Action.scopeOf
  split
  · exact Quiet.alongside (.pure known.1)
  · exact openShared known fun _ same => nomatch same

theorem childScope
    {parent : Nat} {vars : ValueEntries}
    (isShared : parting.shared parent) (known : Value.EntriesWithin parting.bounds vars) :
    Alongside parting (fun later scope => later.shared scope)
      fun _ => Action.childScope parent vars := by
  refine after (Quiet.newVariables known) ?_
  rintro _ ⟨table, rfl⟩
  exact scopeInside isShared trivial

end Alongside

end CueScript
