import CueScript.Proofs.Parting.Action

/-!
# Access and stores where scopes part

What built-in functions do with values and stores does not depend on scopes that values do
not lead to, if what they call does not.  Reading members, going through collections and
changing stores open no scope; calls may.
-/

namespace CueScript

open Value

variable {terms : Terms} {parting : Parting terms} {call : Side → Caller}

/-- Whether calls by built-in functions end alike from some parting on. -/
def CallsAlongside (parting : Parting terms) (call : Side → Caller) : Prop :=
  ∀ later, parting.Later later → ∀ (function : Value) (args : List Value),
    later.Knows function → later.KnowsAll args →
      Alongside later Parting.Knows fun side => call side function args

namespace CallsAlongside

theorem later
    {after : Parting terms} (calls : CallsAlongside parting call)
    (becomes : parting.Later after) :
    CallsAlongside after call :=
  fun last further => calls last (becomes.trans further)

theorem here
    (calls : CallsAlongside parting call) {function : Value} {args : List Value}
    (known : parting.Knows function) (argsKnown : parting.KnowsAll args) :
    Alongside parting Parting.Knows fun side => call side function args :=
  calls parting (.refl parting) function args known argsKnown

end CallsAlongside

namespace Access

/-! ## Members -/

theorem quiet_view (table : Nat) :
    Quiet parting parting.Knows (Action.change fun heap => heap.view table) :=
  .change (fun heap => heap.view_rescope _ table) fun _ fits => fits.view table

theorem quiet_member?
    {value : Value} {name : String} (known : parting.Knows value) :
    Quiet parting parting.KnowsSome (member? value name) := by
  have asMember : parting.KnowsSome (some (.member value name)) := someWithin_some known
  have noMember : parting.KnowsSome none := someWithin_none
  unfold member?
  cases value with
  | event id origin members => exact .pure (within_eventMember known known)
  | store id =>
      simp only
      split
      · exact .get_bind (fun _ _ => rfl) fun _ _ => .pure (someWithin_some trivial)
      · split
        · refine .get_bind (fun _ _ => rfl) fun heap fits => ?_
          cases isStore : heap.stores[id]? with
          | none => exact .pure noMember
          | some store =>
              exact .bind (quiet_view store.table) fun view viewKnown =>
                .pure (someWithin_some viewKnown)
        · split
          · exact .pure asMember
          · exact .pure noMember
  | map entries birth =>
      simp only
      split
      · exact .pure asMember
      · exact .pure noMember
  | list items birth =>
      simp only
      split
      · exact .pure asMember
      · exact .pure noMember
  | kind eventKind =>
      simp only
      split
      · exact .pure (someWithin_some trivial)
      · exact .pure (someWithin_some trivial)
      · exact .pure (someWithin_some trivial)
      · exact .pure asMember
      · exact .pure asMember
      · refine .pure fun found isFound => ?_
        obtain ⟨each, -, rfl⟩ := Option.map_eq_some_iff.mp isFound
        exact trivial
  | constant constantName =>
      simp only
      split
      · exact .pure (someWithin_some trivial)
      · exact .pure noMember
  | closure id shownName params rest body inside owner =>
      have insideShared : parting.shared inside := known.2.2.1
      simp only
      split
      · refine .get_bind (fun _ fits => ?_) fun heap fits => ?_
        · rw [(fits.scopeValue insideShared).1]
        · exact .pure (someWithin_some (fits.scopeValue insideShared).2)
      · exact .pure (within_closureMember known)
  | vector items birth =>
      simp only
      split
      · exact .pure (someWithin_some known)
      · exact .pure noMember
  | quoted form =>
      simp only
      split
      · exact .pure (someWithin_some known)
      · exact .pure noMember
  | symbol text =>
      simp only
      split
      · exact .pure asMember
      · exact .pure noMember
  | scope id =>
      have isShared : parting.shared id := known.1
      obtain ⟨scope, isLeft, -, varsKnown, outerShared⟩ := parting.alike id isShared
      simp only
      split
      · refine .get_bind (fun _ fits => by rw [fits.sharedScope isShared]) fun heap fits => ?_
        rw [fits.leftScope id, isLeft]
        obtain ⟨vars, outer⟩ := scope
        cases vars with
        | table table =>
            exact .bind (quiet_view table) fun view viewKnown =>
              .pure (someWithin_some viewKnown)
        | inside holder => exact .pure (someWithin_some varsKnown)
        | absent given => exact .pure noMember
      · refine .get_bind (fun _ fits => by rw [fits.sharedScope isShared]) fun heap fits => ?_
        rw [fits.leftScope id, isLeft]
        refine .pure (someWithin_some ?_)
        cases outer : scope.outer with
        | nil => simp [outer, Within]
        | cons parent others =>
            have parentShared := outerShared parent (by rw [outer]; exact List.mem_cons_self)
            simpa [outer, Within] using ⟨parentShared, trivial⟩
      · exact .pure asMember
      · exact .pure asMember
      · exact .pure asMember
      · exact .pure noMember
  | evaluator id =>
      simp only
      split
      · exact .get_bind (fun _ _ => rfl) fun _ _ => .pure (someWithin_some trivial)
      · split
        · exact .pure asMember
        · exact .pure noMember
  | settings config =>
      simp only
      split
      · exact .pure (someWithin_some trivial)
      · exact .pure (someWithin_some trivial)
      · exact .pure (someWithin_some trivial)
      · exact .pure asMember
      · exact .pure noMember
  | nil | bool _ | int _ | float _ _ | str _ | keyword _ | tuple _ | builtin _
  | instanceTest _ _ | unset _ | method _ _ | member _ _ => exact .pure noMember

theorem quiet_member
    {value : Value} {name : String} (known : parting.Knows value) :
    Quiet parting parting.Knows (member value name) := by
  refine .bind (quiet_member? known) fun found foundKnown => ?_
  cases found with
  | none => exact .fail
  | some value => exact .pure (foundKnown value rfl)

theorem alongside_callMember
    {value : Value} {name : String} {args : List Value} (calls : CallsAlongside parting call)
    (known : parting.Knows value) (argsKnown : parting.KnowsAll args) :
    Alongside parting Parting.Knows fun side => callMember (call side) value name args :=
  .after (quiet_member known) fun _ operationKnown => calls.here operationKnown argsKnown

/-! ## Collections -/

theorem quiet_isPresent (value : Value) :
    Quiet parting (fun _ => True) (isPresent value) := by
  unfold isPresent
  cases value with
  | store id =>
      exact .get_bind (fun _ _ => by rw [Heap.entries_rescope]) fun _ _ => .pure trivial
  | _ => exact .pure trivial

theorem quiet_items
    {value : Value} (known : parting.Knows value) :
    Quiet parting parting.KnowsAll (items value) := by
  unfold items
  split
  · exact .pure known.2
  · exact .pure (allWithin_keys known.2)
  · rename_i id
    exact .get_bind (fun _ _ => by rw [Heap.entries_rescope]) fun _ fits =>
      .pure (allWithin_keys (fits.entries id))
  · split
    · exact .pure (within_of_toTuple known ‹_›)
    · exact .pure (allWithin_ofChars _)
    · exact .fail

theorem quiet_itemsIfPresent
    {value : Value} (known : parting.Knows value) :
    Quiet parting parting.KnowsAll (itemsIfPresent value) := by
  refine .bind (quiet_isPresent value) fun present _ => ?_
  cases present with
  | true => exact quiet_items known
  | false => exact .pure trivial

theorem quiet_length
    {value : Value} (known : parting.Knows value) :
    Quiet parting (fun _ => True) (length value) :=
  .bind (quiet_items known) fun _ _ => .pure trivial

theorem quiet_itemAt
    {collection key : Value} (known : parting.Knows collection) :
    Quiet parting parting.Knows (itemAt collection key) := by
  unfold itemAt
  split
  · refine .bind (.ofExcept fun found isFound => within_of_get known.2 isFound) ?_
    intro found foundKnown
    cases found with
    | none => exact .fail
    | some value => exact .pure (foundKnown value rfl)
  · split
    · rename_i items position isPositioned _
      have found := someWithin_nthItem (allWithin_positioned known isPositioned) position
      cases isItem : nthItem? items position with
      | none => exact .fail
      | some item => exact .pure (found item isItem)
    · exact .fail

theorem quiet_itemsAfterFirst
    {collection : Value} (known : parting.Knows collection) :
    Quiet parting parting.KnowsAll (itemsAfterFirst collection) := by
  unfold itemsAfterFirst
  split
  · exact .pure (allWithin_positioned known ‹_›).tail
  · exact .fail

/-! ## Going through items -/

theorem quiet_upcoming
    {collection : Value} {done : Nat} {rest : List Value}
    (restKnown : parting.KnowsAll rest) :
    Quiet parting parting.KnowsAll (upcoming collection done rest) := by
  unfold upcoming
  split
  · exact .upcomingWithin restKnown
  · refine .get_bind (fun _ _ => rfl) fun heap _ => ?_
    split
    · exact .fail
    · exact .pure restKnown
  · exact .pure restKnown

/-- A step over an item of a collection, from some parting on. -/
def StepsAlongside {σ : Type} (parting : Parting terms) (holds : Parting terms → σ → Prop)
    (step : Side → σ → Value → Action (Progress σ)) : Prop :=
  ∀ later, parting.Later later → ∀ state item, holds later state → later.Knows item →
    Alongside later (fun last => Progress.Fits (holds last)) fun side => step side state item

theorem alongside_goThrough
    {σ : Type} {holds : Parting terms → σ → Prop} (collection : Value)
    {step : Side → σ → Value → Action (Progress σ)}
    (steps : StepsAlongside parting holds step) (budget done : Nat) {rest : List Value} {state : σ}
    (restKnown : parting.KnowsAll rest) (stateHolds : holds parting state) :
    Alongside parting holds fun side =>
      goThrough collection (step side) budget done rest state := by
  induction budget generalizing parting done rest state with
  | zero => exact Quiet.alongside (.pure stateHolds)
  | succ budget inductionHypothesis =>
      refine .after (quiet_upcoming restKnown) fun coming comingKnown => ?_
      cases coming with
      | nil => exact Quiet.alongside (.pure stateHolds)
      | cons item others =>
          refine .bind (steps parting (.refl parting) state item stateHolds comingKnown.1) ?_
          intro later progress becomes progressHolds
          cases progress with
          | more next =>
              exact inductionHypothesis (fun last further => steps last (becomes.trans further))
                (done + 1) (becomes.knowsAll comingKnown.2) progressHolds
          | enough result => exact Quiet.alongside (.pure progressHolds)

theorem alongside_overItems
    {σ : Type} {holds : Parting terms → σ → Prop} (collection : Value) {found : List Value}
    {step : Side → σ → Value → Action (Progress σ)} {start : σ}
    (foundKnown : parting.KnowsAll found) (startHolds : holds parting start)
    (steps : StepsAlongside parting holds step) :
    Alongside parting holds fun side => overItems collection found (step side) start :=
  alongside_goThrough collection steps _ _ foundKnown startHolds

/-! ## Look-up -/

theorem quiet_getter?
    {value : Value} (known : parting.Knows value) :
    Quiet parting parting.KnowsSome (getter? value) := by
  refine .bind (quiet_member? known) fun found foundKnown => ?_
  split
  · exact .pure someWithin_none
  · exact .pure foundKnown

theorem alongside_getPlainly
    {getter key : Value} {default : Option Value} (calls : CallsAlongside parting call)
    (getterKnown : parting.Knows getter) (keyKnown : parting.Knows key)
    (defaultKnown : parting.KnowsSome default) :
    Alongside parting Parting.KnowsSome fun side =>
      getPlainly (call side) getter key default := by
  refine .after (.current getterKnown) fun found foundKnown => ?_
  split
  · refine .after (.ofExcept fun value isFound => within_of_get foundKnown.2 isFound) ?_
    exact fun value valueKnown =>
      Quiet.alongside (.pure (someWithin_orElse valueKnown defaultKnown))
  · rename_i id
    refine Quiet.alongside (.get_bind (fun _ _ => by rw [Heap.entries_rescope]) fun heap fits => ?_)
    refine .bind (.ofExcept fun value isFound => within_of_get (fits.entries id) isFound) ?_
    exact fun value valueKnown => .pure (someWithin_orElse valueKnown defaultKnown)
  · have argsKnown : parting.KnowsAll [key, default.getD unset] :=
      ⟨keyKnown, within_getD defaultKnown trivial, trivial⟩
    exact .bind (calls.here getterKnown argsKnown) fun later value _ valueKnown =>
      Quiet.alongside (.pure (someWithin_some valueKnown))

theorem alongside_getWith
    {getter key : Value} {default : Option Value} (calls : CallsAlongside parting call)
    (getterKnown : parting.Knows getter) (keyKnown : parting.Knows key)
    (defaultKnown : parting.KnowsSome default) :
    Alongside parting Parting.KnowsSome fun side =>
      getWith (call side) getter key default := by
  unfold getWith
  split
  · refine .after (quiet_getter? keyKnown) fun found foundKnown => ?_
    split
    · exact Quiet.alongside (.pure defaultKnown)
    · exact Quiet.alongside (.pure defaultKnown)
    · rename_i inner _
      exact alongside_getPlainly calls (foundKnown inner rfl) trivial defaultKnown
  · exact alongside_getPlainly calls getterKnown keyKnown defaultKnown

/-- A getter is used, and where there is none, the default stands. -/
theorem alongside_byGetter
    {α : Type} {post : Parting terms → α → Prop} {value : Value} {default : α}
    {use : Side → Value → Action α}
    (known : parting.Knows value) (defaultHolds : post parting default)
    (uses : ∀ getter : Value, parting.Knows getter →
      Alongside parting post fun side => use side getter) :
    Alongside parting post fun side =>
      getter? value >>= fun found =>
        match found with
        | none => Pure.pure default
        | some getter => use side getter := by
  refine .after (quiet_getter? known) fun found foundKnown => ?_
  cases found with
  | none => exact Quiet.alongside (.pure defaultHolds)
  | some getter => exact uses getter (foundKnown getter rfl)

theorem alongside_lookup
    {holder key : Value} {default : Option Value} (calls : CallsAlongside parting call)
    (holderKnown : parting.Knows holder) (keyKnown : parting.Knows key)
    (defaultKnown : parting.KnowsSome default) :
    Alongside parting Parting.KnowsSome fun side =>
      lookup (call side) holder key default := by
  refine .after (.current holderKnown) fun collection known => ?_
  have byGetter := alongside_byGetter known defaultKnown
    fun getter getterKnown => alongside_getWith calls getterKnown keyKnown defaultKnown
  split
  · exact Quiet.alongside (.pure defaultKnown)
  · exact Quiet.alongside
      (.pure (someWithin_orElse (someWithin_nthItem known.2 _) defaultKnown))
  · split
    · have itemsKnown := within_of_toTuple known ‹_›
      exact Quiet.alongside
        (.pure (someWithin_orElse (someWithin_nthItem itemsKnown _) defaultKnown))
    · exact byGetter
  · exact byGetter

theorem alongside_lookupPath
    {collection path : Value} (calls : CallsAlongside parting call)
    (known : parting.Knows collection) (pathKnown : parting.Knows path) :
    Alongside parting Parting.KnowsSome fun side =>
      lookupPath (call side) collection path := by
  refine .after (quiet_items pathKnown) fun keys keysKnown => ?_
  refine alongside_overItems path keysKnown (someWithin_some known) ?_
  intro later becomes found key foundKnown keyKnown
  cases found with
  | none => exact Quiet.alongside (.pure someWithin_none)
  | some value =>
      have inside := alongside_lookup (calls.later becomes) (foundKnown value rfl) keyKnown
        someWithin_none
      refine .bind inside fun last next _ nextKnown => ?_
      have counts := someWithin_answered nextKnown 0
      cases isAnswered : answered 0 next with
      | none => exact Quiet.alongside (.pure someWithin_none)
      | some value => exact Quiet.alongside (.pure (isAnswered ▸ counts))

theorem alongside_callKeyword
    {name : String} {args : List Value} (calls : CallsAlongside parting call)
    (argsKnown : parting.KnowsAll args) :
    Alongside parting Parting.Knows fun side =>
      callKeyword (call side) (.keyword name) args := by
  have look (mapping default : Value) (mappingKnown : parting.Knows mapping)
      (defaultKnown : parting.Knows default) :=
    alongside_byGetter mappingKnown defaultKnown
      fun getter getterKnown =>
        @CallsAlongside.here _ _ _ calls getter [.keyword name, default] getterKnown
          ⟨trivial, defaultKnown, trivial⟩
  unfold callKeyword
  split
  · exact look _ _ argsKnown.1 trivial
  · exact look _ _ argsKnown.1 argsKnown.2.1
  · exact Quiet.alongside .fail

theorem alongside_followPath
    {found : Option Value} {path : List Value} (calls : CallsAlongside parting call)
    (foundKnown : parting.KnowsSome found) (pathKnown : parting.KnowsAll path) :
    Alongside parting Parting.KnowsSome fun side => followPath (call side) found path := by
  induction path generalizing parting found with
  | nil =>
      unfold followPath
      exact Quiet.alongside (.pure foundKnown)
  | cons key rest inductionHypothesis =>
      unfold followPath
      split
      · exact Quiet.alongside (.pure foundKnown)
      · exact Quiet.alongside (.pure someWithin_none)
      · exact Quiet.alongside (.pure someWithin_none)
      · rename_i value _ _ _ same
        cases same
        refine .after (quiet_getter? (foundKnown value rfl)) fun getter getterKnown => ?_
        cases getter with
        | none => exact inductionHypothesis calls someWithin_none pathKnown.2
        | some getter =>
            have step := alongside_getWith calls (getterKnown getter rfl) pathKnown.1
              someWithin_unsetInStore
            exact .bind step fun later next becomes nextKnown =>
              inductionHypothesis (calls.later becomes) (someWithin_answered nextKnown 1)
                (becomes.knowsAll pathKnown.2)

end Access

/-! ## Stores -/

namespace Store

theorem quiet_contents (id : Nat) :
    Quiet parting (EntriesWithin parting.bounds) (contents id) :=
  .get_bind (fun _ _ => by rw [Heap.entries_rescope]) fun _ fits => .pure (fits.entries id)

theorem quiet_revise
    {id : Nat} {operation : ValueEntries → Except Failure ValueEntries}
    (revises : ∀ entries revised, EntriesWithin parting.bounds entries →
      operation entries = .ok revised → EntriesWithin parting.bounds revised) :
    Quiet parting (fun _ => True) (revise id operation) := by
  refine .bind (quiet_contents id) fun entries known => ?_
  refine .bind (.ofExcept fun revised isRevised => revises entries revised known isRevised) ?_
  intro revised revisedKnown
  exact .modify (fun heap => heap.setEntries_rescope _ id revised)
    fun heap fits => fits.setEntries id revisedKnown

theorem quiet_find? (id : Nat) (key : Value) :
    Quiet parting parting.KnowsSome (find? id key) :=
  .bind (quiet_contents id) fun _ known =>
    .ofExcept fun _ isFound => within_of_get known isFound

theorem quiet_get
    {id : Nat} {key default : Value} (defaultKnown : parting.Knows default) :
    Quiet parting parting.Knows (get id key default) :=
  .bind (quiet_find? id key) fun _ known => .pure (within_getD known defaultKnown)

theorem quiet_set
    {id : Nat} {key value : Value}
    (keyKnown : parting.Knows key) (valueKnown : parting.Knows value) :
    Quiet parting parting.Knows (set id key value) := by
  refine .bind (quiet_revise ?_) fun _ _ => .pure valueKnown
  exact fun entries revised known isRevised =>
    entriesWithin_of_put known keyKnown valueKnown isRevised

theorem quiet_remove (id : Nat) (key : Value) :
    Quiet parting parting.Knows (remove id key) := by
  refine .bind (quiet_contents id) fun entries known => ?_
  refine .bind (.ofExcept fun found isFound => within_of_taken known isFound) ?_
  intro previous previousKnown
  refine .bind (quiet_revise ?_) fun _ _ => .pure (within_getD_nil previousKnown)
  exact fun entries revised known isRevised => entriesWithin_of_erase known isRevised

theorem alongside_update
    {id : Nat} {key function : Value} {args : List Value} (calls : CallsAlongside parting call)
    (keyKnown : parting.Knows key) (functionKnown : parting.Knows function)
    (argsKnown : parting.KnowsAll args) :
    Alongside parting Parting.Knows fun side => update (call side) id key function args := by
  refine .after (quiet_get trivial) fun old oldKnown => ?_
  refine .bind (calls.here functionKnown ⟨oldKnown, argsKnown⟩) ?_
  exact fun later value becomes valueKnown =>
    Quiet.alongside (quiet_set (becomes.knows keyKnown) valueKnown)

theorem quiet_compareAndSet
    {id : Nat} {key expected value : Value}
    (keyKnown : parting.Knows key) (valueKnown : parting.Knows value) :
    Quiet parting (fun _ => True) (compareAndSet id key expected value) := by
  refine .bind (quiet_get trivial) fun present _ => ?_
  split
  · exact .bind (quiet_set keyKnown valueKnown) fun _ _ => .pure trivial
  · exact .pure trivial

theorem alongside_getIn
    {id : Nat} {path default : Value} (calls : CallsAlongside parting call)
    (pathKnown : parting.Knows path) (defaultKnown : parting.Knows default) :
    Alongside parting Parting.Knows fun side => getIn (call side) id path default := by
  refine .after (Access.quiet_isPresent path) fun present _ => ?_
  cases present with
  | false => exact Quiet.alongside (.pure defaultKnown)
  | true =>
      refine .after (Access.quiet_itemAt pathKnown) fun start _ => ?_
      refine .after (quiet_find? id start) fun found foundKnown => ?_
      refine .after (Access.quiet_itemsAfterFirst pathKnown) fun rest restKnown => ?_
      have counts := Access.someWithin_answered foundKnown 1
      refine .bind (Access.alongside_followPath calls counts restKnown) ?_
      intro later result becomes resultKnown
      have defaultLater := becomes.knows defaultKnown
      split
      · exact Quiet.alongside (.pure defaultLater)
      · exact Quiet.alongside (.pure defaultLater)
      · exact Quiet.alongside (.pure (resultKnown _ rfl))

theorem quiet_clear (id : Nat) :
    Quiet parting (fun _ => True) (clear id) :=
  .modify (fun heap => heap.setEntries_rescope _ id []) fun _ fits => fits.setEntries id trivial

theorem alongside_perform
    {id : Nat} {operation : String} {args : List Value} (calls : CallsAlongside parting call)
    (argsKnown : parting.KnowsAll args) :
    Alongside parting Parting.Knows fun side => perform (call side) id operation args := by
  unfold perform
  split
  · exact Quiet.alongside (quiet_get trivial)
  · exact Quiet.alongside (quiet_get argsKnown.2.1)
  · exact alongside_getIn calls argsKnown.1 trivial
  · exact alongside_getIn calls argsKnown.1 argsKnown.2.1
  · exact Quiet.alongside (quiet_set argsKnown.1 argsKnown.2.1)
  · exact Quiet.alongside (quiet_remove id _)
  · exact alongside_update calls argsKnown.1 argsKnown.2.1 argsKnown.2.2
  · exact Quiet.alongside (.bind (quiet_compareAndSet argsKnown.1 argsKnown.2.2.1)
      fun _ _ => .pure trivial)
  · exact Quiet.alongside (.bind (quiet_contents id) fun _ known => .newMap known)
  · exact Quiet.alongside (.bind (quiet_clear id) fun _ _ => .pure trivial)
  · exact Quiet.alongside .fail

end Store

end CueScript
