import CueScript.Proofs.Run.Agree
import CueScript.Store.Operation

/-!
# Access and stores in runs that agree

What built-in functions do with values and stores agrees in two runs, and keeps to the
bounds, if what they call agrees.
-/

namespace CueScript

/-- Whether a value that may be missing may be met. -/
def Value.SomeWithin (bounds : Bounds) (found : Option Value) : Prop :=
  ∀ value, found = some value → value.Within bounds

namespace Value

variable {bounds : Bounds}

theorem someWithin_none : SomeWithin bounds none := fun _ same => nomatch same

theorem someWithin_some
    {value : Value} (within : value.Within bounds) :
    SomeWithin bounds (some value) := by
  rintro _ ⟨⟩
  exact within

theorem within_getD_nil
    {found : Option Value} (within : SomeWithin bounds found) :
    (found.getD .nil).Within bounds :=
  within_getD within trivial

theorem someWithin_orElse
    {first second : Option Value}
    (firstWithin : SomeWithin bounds first) (secondWithin : SomeWithin bounds second) :
    SomeWithin bounds (first <|> second) := by
  cases first with
  | none => exact secondWithin
  | some value => exact someWithin_some (firstWithin value rfl)

theorem someWithin_getElem
    {items : List Value} (within : AllWithin bounds items) (index : Nat) :
    SomeWithin bounds items[index]? := fun value isItem =>
  allWithin_iff.mp within value (List.mem_of_getElem? isItem)

theorem someWithin_findMember
    {members : List (String × Value)} {name : String}
    (within : MembersWithin bounds members) :
    SomeWithin bounds (Entries.find? (· == ·) name members) := by
  induction members with
  | nil => exact someWithin_none
  | cons first rest inductionHypothesis =>
      obtain ⟨key, value⟩ := first
      rw [Entries.find?]
      split
      · exact someWithin_some within.1
      · exact inductionHypothesis within.2

end Value

/-- Whether two runs have evaluators of the same settings. -/
def Pact.SameConfigs (pact : Pact) : Prop :=
  ∀ (heap : Heap) (id : Nat) (side : Side),
    (heap.equip (pact.evaluators side)).config id =
      (heap.equip (pact.evaluators .left)).config id

/-- Whether calls by built-in functions agree. -/
def CallsAgree (pact : Pact) (call : Side → Caller) : Prop :=
  ∀ (function : Value) (args : List Value),
    function.Within pact.bounds → Value.AllWithin pact.bounds args →
      Agree pact (Value.Within pact.bounds) fun side => call side function args

open Value

variable {pact : Pact} {call : Side → Caller}

namespace Access

/-! ## Members -/

theorem within_eventMember
    {bounds : Bounds} {origin : EventClass} {members : List (String × Value)}
    {receiver : Value} {name : String}
    (within : MembersWithin bounds members) (receiverWithin : receiver.Within bounds) :
    SomeWithin bounds (eventMember? origin members receiver name) := by
  have found : SomeWithin bounds (Entries.find? (· == ·) name members) :=
    someWithin_findMember within
  unfold eventMember?
  split
  · rename_i value isFound
    exact someWithin_some (found value isFound)
  · split
    · exact someWithin_some receiverWithin
    · exact someWithin_none

theorem within_closureMember
    {bounds : Bounds} {closure : Value} {name : String}
    (within : closure.Within bounds) :
    SomeWithin bounds (closureMember? closure name) := by
  unfold closureMember?
  split
  · rename_i params rest body _ evaluator
    have closureWithin := within
    obtain ⟨bodyWithin, -, -, evaluatorKnown⟩ := within
    split
    · exact someWithin_some trivial
    · refine someWithin_some (allWithin_iff.mpr fun item member => ?_)
      obtain ⟨each, -, rfl⟩ := List.mem_map.mp member
      exact trivial
    · cases rest <;> exact someWithin_some trivial
    · exact someWithin_some bodyWithin
    · exact someWithin_some evaluatorKnown
    · exact someWithin_some closureWithin
    · exact someWithin_none
  · exact someWithin_none

/-- A map that is a view of a table. -/
theorem agree_view
    {table : Nat} (known : pact.bounds.tables table)
    (byWay : (∃ id, pact.bounds.stores id) ∨ pact.bounds.escapes) :
    Agree pact (Within pact.bounds) fun _ => Action.change fun heap => heap.view table :=
  .change (fun heap evaluators => heap.view_equip evaluators table)
    fun _ heapWithin => heapWithin.view known byWay

theorem agree_member?
    {value : Value} {name : String}
    (within : value.Within pact.bounds)
    (configs : name = "config" → pact.SameConfigs) :
    Agree pact (SomeWithin pact.bounds) fun _ => member? value name := by
  have asMember : SomeWithin pact.bounds (some (.member value name)) := someWithin_some within
  have noMember : SomeWithin pact.bounds none := someWithin_none
  unfold member?
  cases value with
  | event id origin members => exact .pure (within_eventMember within within)
  | store id =>
      simp only
      split
      · exact .get_bind fun heap _ => .pure (someWithin_some trivial)
      · split
        · refine .get_bind fun heap heapWithin => ?_
          simp only [Heap.equip_stores]
          cases isStore : heap.stores[id]? with
          | none => exact .pure noMember
          | some store =>
              have tableKnown := heapWithin.stores id store within isStore
              refine .bind (agree_view tableKnown (.inl ⟨id, within⟩)) ?_
              exact fun view viewWithin => .pure (someWithin_some viewWithin)
        · split
          · exact .pure asMember
          · exact .pure noMember
  | map entries birth =>
      simp only
      split
      · exact .pure asMember
      · exact .pure noMember
  | list items birth =>
      simp only
      split
      · exact .pure asMember
      · exact .pure noMember
  | kind eventKind =>
      simp only
      split
      · exact .pure (someWithin_some trivial)
      · exact .pure (someWithin_some trivial)
      · exact .pure (someWithin_some trivial)
      · exact .pure asMember
      · exact .pure asMember
      · refine .pure fun found isFound => ?_
        obtain ⟨each, -, rfl⟩ := Option.map_eq_some_iff.mp isFound
        exact trivial
  | constant constantName =>
      simp only
      split
      · exact .pure (someWithin_some trivial)
      · exact .pure noMember
  | closure id shownName params rest body inside owner =>
      simp only
      split
      · refine .get_bind fun heap heapWithin => ?_
        simp only [Heap.scopeValue_equip]
        have shown := heapWithin.scopeValue within.2.2.1 within.2.2.2.2
        exact .pure (someWithin_some shown)
      · exact .pure (within_closureMember within)
  | vector items birth =>
      simp only
      split
      · exact .pure (someWithin_some within)
      · exact .pure noMember
  | quoted form =>
      simp only
      split
      · exact .pure (someWithin_some within)
      · exact .pure noMember
  | symbol text =>
      simp only
      split
      · exact .pure asMember
      · exact .pure noMember
  | scope id =>
      obtain ⟨known, escapes⟩ := within
      simp only
      split
      · refine .get_bind fun heap heapWithin => ?_
        simp only [Heap.equip_scopes]
        cases isScope : heap.scopes[id]? with
        | none => exact .pure noMember
        | some scope =>
            obtain ⟨vars, outer⟩ := scope
            have varsWithin := (heapWithin.scopes id _ known isScope).1
            cases vars with
            | table table =>
                refine .bind (agree_view varsWithin (.inr escapes)) ?_
                exact fun view viewWithin => .pure (someWithin_some viewWithin)
            | inside holder => exact .pure (someWithin_some varsWithin)
            | absent given => exact .pure noMember
      · refine .get_bind fun heap heapWithin => ?_
        simp only [Heap.equip_scopes]
        refine .pure (someWithin_some ?_)
        cases isScope : heap.scopes[id]? with
        | none => exact trivial
        | some scope =>
            have outerKnown := (heapWithin.scopes id scope known isScope).2
            cases outer : scope.outer with
            | nil => simp [outer, Within]
            | cons parent others =>
                have parentKnown := outerKnown parent (by rw [outer]; exact List.mem_cons_self)
                simpa [outer, Within] using ⟨parentKnown, escapes⟩
      · exact .pure asMember
      · exact .pure asMember
      · exact .pure asMember
      · exact .pure noMember
  | evaluator id =>
      simp only
      split
      · rename_i isConfig
        refine .get_bind fun heap _ => ?_
        simp only [configs isConfig heap id]
        exact .pure (someWithin_some trivial)
      · split
        · exact .pure asMember
        · exact .pure noMember
  | settings config =>
      simp only
      split
      · exact .pure (someWithin_some trivial)
      · exact .pure (someWithin_some trivial)
      · exact .pure (someWithin_some trivial)
      · exact .pure asMember
      · exact .pure noMember
  | nil | bool _ | int _ | float _ _ | str _ | keyword _ | tuple _ | builtin _
  | instanceTest _ _ | unset _ | method _ _ | member _ _ => exact .pure noMember

theorem agree_member
    {value : Value} {name : String}
    (within : value.Within pact.bounds)
    (configs : name = "config" → pact.SameConfigs) :
    Agree pact (Within pact.bounds) fun _ => member value name := by
  refine .bind (agree_member? within configs) fun found foundWithin => ?_
  cases found with
  | none => exact .fail
  | some value => exact .pure (foundWithin value rfl)

theorem agree_callMember
    {value : Value} {name : String} {args : List Value}
    (calls : CallsAgree pact call)
    (within : value.Within pact.bounds)
    (argsWithin : AllWithin pact.bounds args)
    (plain : name ≠ "config") :
    Agree pact (Within pact.bounds) fun side => callMember (call side) value name args :=
  .bind (agree_member within fun isConfig => absurd isConfig plain) fun operation known =>
    calls operation args known argsWithin

/-! ## Collections -/

theorem agree_isPresent
    {value : Value} :
    Agree pact (fun _ => True) fun _ => isPresent value := by
  unfold isPresent
  cases value with
  | store id =>
      refine .get_bind fun heap _ => ?_
      simp only [Heap.entries_equip]
      exact .pure trivial
  | _ =>
      simp only
      exact .pure trivial

/-- The items of what is no collection of its own are those of a tuple or a text. -/
theorem agree_plainItems
    {value : Value} (within : value.Within pact.bounds) :
    Agree pact (AllWithin pact.bounds) fun _ =>
      match value.toTuple?, value.toText? with
      | some items, _ => (Pure.pure items : Action (List Value))
      | none, some text => Pure.pure (Value.ofChars text)
      | none, none => Action.fail .wrongType := by
  split
  · exact .pure (within_of_toTuple within ‹_›)
  · exact .pure (allWithin_ofChars _)
  · exact .fail

theorem agree_items
    {value : Value} (within : value.Within pact.bounds) :
    Agree pact (AllWithin pact.bounds) fun _ => items value := by
  have others := agree_plainItems within
  unfold items
  cases value with
  | list items birth => exact .pure within.2
  | map entries birth => exact .pure (allWithin_keys within.2)
  | store id =>
      refine .get_bind fun heap heapWithin => ?_
      simp only [Heap.entries_equip]
      exact .pure (allWithin_keys (heapWithin.entries within))
  | _ => exact others

theorem agree_itemsIfPresent
    {value : Value} (within : value.Within pact.bounds) :
    Agree pact (AllWithin pact.bounds) fun _ => itemsIfPresent value := by
  refine .bind agree_isPresent fun present _ => ?_
  cases present with
  | true => exact agree_items within
  | false => exact .pure trivial

theorem agree_length
    {value : Value} (within : value.Within pact.bounds) :
    Agree pact (fun _ => True) fun _ => length value :=
  .bind (agree_items within) fun _ _ => .pure trivial

theorem someWithin_nthItem
    {bounds : Bounds} {items : List Value} (within : AllWithin bounds items)
    (position : Int) :
    SomeWithin bounds (nthItem? items position) := by
  unfold nthItem?
  split
  · exact someWithin_getElem within _
  · split
    · exact someWithin_getElem within _
    · exact someWithin_none

theorem allWithin_positioned
    {bounds : Bounds} {value : Value} {items : List Value}
    (within : value.Within bounds) (isPositioned : positioned? value = some items) :
    AllWithin bounds items := by
  unfold positioned? at isPositioned
  split at isPositioned
  · cases isPositioned
    exact within.2
  · split at isPositioned
    · cases isPositioned
      exact within_of_toTuple within ‹_›
    · cases isPositioned
      exact allWithin_ofChars _
    · cases isPositioned

theorem agree_itemAt
    {collection key : Value} (within : collection.Within pact.bounds) :
    Agree pact (Within pact.bounds) fun _ => itemAt collection key := by
  unfold itemAt
  split
  · refine .bind (.ofExcept fun found isFound => within_of_get within.2 isFound) ?_
    intro found foundWithin
    cases found with
    | none => exact .fail
    | some value => exact .pure (foundWithin value rfl)
  · split
    · rename_i items position isPositioned _
      have found := someWithin_nthItem (allWithin_positioned within isPositioned) position
      cases isItem : nthItem? items position with
      | none => exact .fail
      | some item => exact .pure (found item isItem)
    · exact .fail

theorem agree_itemsAfterFirst
    {collection : Value} (within : collection.Within pact.bounds) :
    Agree pact (AllWithin pact.bounds) fun _ => itemsAfterFirst collection := by
  unfold itemsAfterFirst
  split
  · exact .pure (allWithin_positioned within ‹_›).tail
  · exact .fail

/-! ## Going through items -/

/-- Whether what a step leaves is as it should be. -/
def Progress.Fits {σ : Type} (fits : σ → Prop) : Progress σ → Prop
  | .more state => fits state
  | .enough state => fits state

theorem agree_upcoming
    {collection : Value} {done : Nat} {rest : List Value}
    (within : collection.Within pact.bounds) (restWithin : AllWithin pact.bounds rest) :
    Agree pact (AllWithin pact.bounds) fun _ => upcoming collection done rest := by
  unfold upcoming
  split
  · exact .upcomingWithin within.1.1 restWithin
  · refine .get_bind fun heap _ => ?_
    change Agree pact (AllWithin pact.bounds) fun _ =>
      if hasChangedSize heap _ _ then Action.fail .changedSize else Pure.pure rest
    split
    · exact .fail
    · exact .pure restWithin
  · exact .pure restWithin

theorem agree_goThrough
    {σ : Type} {fits : σ → Prop} {collection : Value}
    {step : Side → σ → Value → Action (Progress σ)}
    (within : collection.Within pact.bounds)
    (steps : ∀ state item, fits state → item.Within pact.bounds →
      Agree pact (Progress.Fits fits) fun side => step side state item)
    (budget done : Nat) {rest : List Value} {state : σ}
    (restWithin : AllWithin pact.bounds rest) (stateFits : fits state) :
    Agree pact fits fun side => goThrough collection (step side) budget done rest state := by
  induction budget generalizing done rest state with
  | zero => exact .pure stateFits
  | succ budget inductionHypothesis =>
      refine .bind (agree_upcoming within restWithin) fun coming comingWithin => ?_
      cases coming with
      | nil => exact .pure stateFits
      | cons item others =>
          refine .bind (steps state item stateFits comingWithin.1) fun progress isFit => ?_
          cases progress with
          | more next => exact inductionHypothesis (done + 1) comingWithin.2 isFit
          | enough result => exact .pure isFit

theorem agree_overItems
    {σ : Type} {fits : σ → Prop} {collection : Value} {found : List Value}
    {step : Side → σ → Value → Action (Progress σ)} {start : σ}
    (within : collection.Within pact.bounds)
    (foundWithin : AllWithin pact.bounds found)
    (startFits : fits start)
    (steps : ∀ state item, fits state → item.Within pact.bounds →
      Agree pact (Progress.Fits fits) fun side => step side state item) :
    Agree pact fits fun side => overItems collection found (step side) start :=
  agree_goThrough within steps _ _ foundWithin startFits

/-! ## Look-up -/

theorem agree_getter?
    {value : Value} (within : value.Within pact.bounds) :
    Agree pact (SomeWithin pact.bounds) fun _ => getter? value := by
  have plain : "get" = "config" → pact.SameConfigs := fun same => absurd same (by decide)
  refine .bind (agree_member? within plain) fun found foundWithin => ?_
  split
  · exact .pure someWithin_none
  · exact .pure foundWithin

theorem someWithin_unsetInStore {bounds : Bounds} : SomeWithin bounds (some unsetInStore) :=
  someWithin_some trivial

/-- What was found is within the bounds, whether it counts or not. -/
theorem someWithin_answered
    {bounds : Bounds} {found : Option Value} (within : SomeWithin bounds found) (id : Nat) :
    SomeWithin bounds (answered id found) := fun value isAnswered =>
  within value (Option.filter_eq_some_iff.mp isAnswered).1

theorem agree_getPlainly
    {getter key : Value} {default : Option Value}
    (calls : CallsAgree pact call)
    (getterWithin : getter.Within pact.bounds) (keyWithin : key.Within pact.bounds)
    (defaultWithin : SomeWithin pact.bounds default) :
    Agree pact (SomeWithin pact.bounds) fun side =>
      getPlainly (call side) getter key default := by
  refine .bind (.current getterWithin) fun found foundWithin => ?_
  split
  · refine .bind (.ofExcept fun value isFound => within_of_get foundWithin.2 isFound) ?_
    exact fun value valueWithin => .pure (someWithin_orElse valueWithin defaultWithin)
  · refine .get_bind fun heap heapWithin => ?_
    simp only [Heap.entries_equip]
    have entriesWithin := heapWithin.entries foundWithin
    refine .bind (.ofExcept fun value isFound => within_of_get entriesWithin isFound) ?_
    exact fun value valueWithin => .pure (someWithin_orElse valueWithin defaultWithin)
  · have argsWithin : AllWithin pact.bounds [key, default.getD unset] :=
      ⟨keyWithin, within_getD defaultWithin trivial, trivial⟩
    exact .bind (calls getter _ getterWithin argsWithin) fun value valueWithin =>
      .pure (someWithin_some valueWithin)

theorem agree_getWith
    {getter key : Value} {default : Option Value}
    (calls : CallsAgree pact call)
    (getterWithin : getter.Within pact.bounds) (keyWithin : key.Within pact.bounds)
    (defaultWithin : SomeWithin pact.bounds default) :
    Agree pact (SomeWithin pact.bounds) fun side =>
      getWith (call side) getter key default := by
  unfold getWith
  split
  · refine .bind (agree_getter? keyWithin) fun found foundWithin => ?_
    split
    · exact .pure defaultWithin
    · exact .pure defaultWithin
    · rename_i inner _
      exact agree_getPlainly calls (foundWithin inner rfl) trivial defaultWithin
  · exact agree_getPlainly calls getterWithin keyWithin defaultWithin

/-- A getter is used, and where there is none, the default stands. -/
theorem agree_byGetter
    {α : Type} {post : α → Prop} {value : Value} {default : α} {use : Side → Value → Action α}
    (within : value.Within pact.bounds) (defaultHolds : post default)
    (uses : ∀ getter : Value, getter.Within pact.bounds →
      Agree pact post fun side => use side getter) :
    Agree pact post fun side =>
      getter? value >>= fun found =>
        match found with
        | none => Pure.pure default
        | some getter => use side getter := by
  refine .bind (agree_getter? within) fun found foundWithin => ?_
  cases found with
  | none => exact .pure defaultHolds
  | some getter => exact uses getter (foundWithin getter rfl)

theorem agree_lookup
    {holder key : Value} {default : Option Value}
    (calls : CallsAgree pact call)
    (holderWithin : holder.Within pact.bounds) (keyWithin : key.Within pact.bounds)
    (defaultWithin : SomeWithin pact.bounds default) :
    Agree pact (SomeWithin pact.bounds) fun side =>
      lookup (call side) holder key default := by
  refine .bind (.current holderWithin) fun collection within => ?_
  have byGetter := agree_byGetter within defaultWithin fun getter getterWithin =>
    agree_getWith calls getterWithin keyWithin defaultWithin
  split
  · exact .pure defaultWithin
  · exact .pure (someWithin_orElse (someWithin_nthItem within.2 _) defaultWithin)
  · split
    · have itemsWithin := within_of_toTuple within ‹_›
      exact .pure (someWithin_orElse (someWithin_nthItem itemsWithin _) defaultWithin)
    · exact byGetter
  · exact byGetter

theorem agree_lookupPath
    {collection path : Value}
    (calls : CallsAgree pact call)
    (within : collection.Within pact.bounds) (pathWithin : path.Within pact.bounds) :
    Agree pact (SomeWithin pact.bounds) fun side =>
      lookupPath (call side) collection path := by
  refine .bind (agree_items pathWithin) fun keys keysWithin => ?_
  refine agree_overItems pathWithin keysWithin (someWithin_some within) ?_
  intro found key foundWithin keyWithin
  cases found with
  | none => exact .pure someWithin_none
  | some value =>
      have inside := agree_lookup calls (foundWithin value rfl) keyWithin someWithin_none
      refine .bind inside fun next nextWithin => ?_
      have counts := someWithin_answered nextWithin 0
      cases isAnswered : answered 0 next with
      | none => exact .pure someWithin_none
      | some value => exact .pure (isAnswered ▸ counts)

theorem agree_callKeyword
    {name : String} {args : List Value}
    (calls : CallsAgree pact call)
    (argsWithin : AllWithin pact.bounds args) :
    Agree pact (Within pact.bounds) fun side =>
      callKeyword (call side) (.keyword name) args := by
  have look (mapping default : Value) (mappingWithin : mapping.Within pact.bounds)
      (defaultWithin : default.Within pact.bounds) :=
    agree_byGetter mappingWithin defaultWithin fun getter getterWithin =>
      calls getter [.keyword name, default] getterWithin ⟨trivial, defaultWithin, trivial⟩
  unfold callKeyword
  split
  · exact look _ _ argsWithin.1 trivial
  · exact look _ _ argsWithin.1 argsWithin.2.1
  · exact .fail

theorem agree_followPath
    {found : Option Value} {path : List Value}
    (calls : CallsAgree pact call)
    (foundWithin : SomeWithin pact.bounds found) (pathWithin : AllWithin pact.bounds path) :
    Agree pact (SomeWithin pact.bounds) fun side => followPath (call side) found path := by
  induction path generalizing found with
  | nil =>
      unfold followPath
      exact .pure foundWithin
  | cons key rest inductionHypothesis =>
      unfold followPath
      split
      · exact .pure foundWithin
      · exact .pure someWithin_none
      · exact .pure someWithin_none
      · rename_i value _ _ _ same
        cases same
        refine .bind (agree_getter? (foundWithin value rfl)) fun getter getterWithin => ?_
        cases getter with
        | none => exact inductionHypothesis someWithin_none pathWithin.2
        | some getter =>
            have step := agree_getWith calls (getterWithin getter rfl) pathWithin.1
              someWithin_unsetInStore
            exact .bind step fun next nextWithin =>
              inductionHypothesis (someWithin_answered nextWithin 1) pathWithin.2

end Access

/-! ## Stores -/

namespace Store

theorem agree_contents
    {id : Nat} (known : pact.bounds.stores id) :
    Agree pact (EntriesWithin pact.bounds) fun _ => contents id := by
  refine .get_bind fun heap heapWithin => ?_
  simp only [Heap.entries_equip]
  exact .pure (heapWithin.entries known)

theorem agree_revise
    {id : Nat} {operation : ValueEntries → Except Failure ValueEntries}
    (known : pact.bounds.stores id)
    (revises : ∀ entries revised, EntriesWithin pact.bounds entries →
      operation entries = .ok revised → EntriesWithin pact.bounds revised) :
    Agree pact (fun _ => True) fun _ => revise id operation := by
  refine .bind (agree_contents known) fun entries within => ?_
  refine .bind (.ofExcept fun revised isRevised => revises entries revised within isRevised) ?_
  intro revised revisedWithin
  exact .modify (fun heap evaluators => heap.setEntries_equip evaluators id revised)
    fun heap heapWithin => heapWithin.setEntries known revisedWithin

theorem agree_find?
    {id : Nat} {key : Value} (known : pact.bounds.stores id) :
    Agree pact (SomeWithin pact.bounds) fun _ => find? id key :=
  .bind (agree_contents known) fun _ within =>
    .ofExcept fun _ isFound => within_of_get within isFound

theorem agree_get
    {id : Nat} {key default : Value}
    (known : pact.bounds.stores id) (defaultWithin : default.Within pact.bounds) :
    Agree pact (Within pact.bounds) fun _ => get id key default :=
  .bind (agree_find? known) fun _ within => .pure (within_getD within defaultWithin)

theorem agree_set
    {id : Nat} {key value : Value}
    (known : pact.bounds.stores id)
    (keyWithin : key.Within pact.bounds) (valueWithin : value.Within pact.bounds) :
    Agree pact (Within pact.bounds) fun _ => set id key value := by
  refine .bind (agree_revise known ?_) fun _ _ => .pure valueWithin
  exact fun entries revised within isRevised =>
    entriesWithin_of_put within keyWithin valueWithin isRevised

theorem agree_remove
    {id : Nat} {key : Value} (known : pact.bounds.stores id) :
    Agree pact (Within pact.bounds) fun _ => remove id key := by
  refine .bind (agree_contents known) fun entries within => ?_
  refine .bind (.ofExcept fun found isFound => within_of_taken within isFound) ?_
  intro previous previousWithin
  refine .bind (agree_revise known ?_) fun _ _ => .pure (within_getD_nil previousWithin)
  exact fun entries revised within isRevised => entriesWithin_of_erase within isRevised

theorem agree_update
    {id : Nat} {key function : Value} {args : List Value}
    (calls : CallsAgree pact call)
    (known : pact.bounds.stores id)
    (keyWithin : key.Within pact.bounds) (functionWithin : function.Within pact.bounds)
    (argsWithin : AllWithin pact.bounds args) :
    Agree pact (Within pact.bounds) fun side => update (call side) id key function args := by
  refine .bind (agree_get known trivial) fun old oldWithin => ?_
  refine .bind (calls function _ functionWithin ⟨oldWithin, argsWithin⟩) ?_
  exact fun value valueWithin => agree_set known keyWithin valueWithin

theorem agree_compareAndSet
    {id : Nat} {key expected value : Value}
    (known : pact.bounds.stores id)
    (keyWithin : key.Within pact.bounds) (valueWithin : value.Within pact.bounds) :
    Agree pact (fun _ => True) fun _ => compareAndSet id key expected value := by
  refine .bind (agree_get known trivial) fun present _ => ?_
  split
  · exact .bind (agree_set known keyWithin valueWithin) fun _ _ => .pure trivial
  · exact .pure trivial

theorem agree_getIn
    {id : Nat} {path default : Value}
    (calls : CallsAgree pact call)
    (known : pact.bounds.stores id)
    (pathWithin : path.Within pact.bounds) (defaultWithin : default.Within pact.bounds) :
    Agree pact (Within pact.bounds) fun side => getIn (call side) id path default := by
  refine .bind Access.agree_isPresent fun present _ => ?_
  cases present with
  | false => exact .pure defaultWithin
  | true =>
      refine .bind (Access.agree_itemAt pathWithin) fun start _ => ?_
      refine .bind (agree_find? known) fun found foundWithin => ?_
      refine .bind (Access.agree_itemsAfterFirst pathWithin) fun rest restWithin => ?_
      have counts := Access.someWithin_answered foundWithin 1
      refine .bind (Access.agree_followPath calls counts restWithin) ?_
      intro result resultWithin
      split
      · exact .pure defaultWithin
      · exact .pure defaultWithin
      · exact .pure (resultWithin _ rfl)

theorem agree_clear
    {id : Nat} (known : pact.bounds.stores id) :
    Agree pact (fun _ => True) fun _ => clear id :=
  .modify (fun heap evaluators => heap.setEntries_equip evaluators id [])
    fun _ heapWithin => heapWithin.setEntries known trivial

theorem agree_perform
    {id : Nat} {operation : String} {args : List Value}
    (calls : CallsAgree pact call)
    (known : pact.bounds.stores id)
    (argsWithin : AllWithin pact.bounds args) :
    Agree pact (Within pact.bounds) fun side => perform (call side) id operation args := by
  unfold perform
  split
  · exact agree_get known trivial
  · exact agree_get known argsWithin.2.1
  · exact agree_getIn calls known argsWithin.1 trivial
  · exact agree_getIn calls known argsWithin.1 argsWithin.2.1
  · exact agree_set known argsWithin.1 argsWithin.2.1
  · exact agree_remove known
  · exact agree_update calls known argsWithin.1 argsWithin.2.1 argsWithin.2.2
  · refine .bind (agree_compareAndSet known argsWithin.1 argsWithin.2.2.1) ?_
    exact fun _ _ => .pure trivial
  · exact .bind (agree_contents known) fun _ within => .newMap within
  · exact .bind (agree_clear known) fun _ _ => .pure trivial
  · exact .fail

end Store

end CueScript
