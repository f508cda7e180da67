import CueScript.Proofs.Collection.Lookup

/-!
# Paths of keys

`get-in` follows a path from any collection on, and `get_in` one from a store on.  Where the
values on the way have no look-up operation of their own, both find what is held along the
path, each key in what the one before it holds, and so does `get` for one key after the other.
-/

namespace CueScript

namespace Value

variable {holdings : Holdings}

/-- A value keeps its kind, whatever its lists and maps hold now. -/
theorem ctorIdx_current (holdings : Holdings) (value : Value) :
    (value.current holdings).ctorIdx = value.ctorIdx := by
  cases value with
  | list | vector | map =>
      rw [current]
      split <;> rfl
  | _ => rfl

/-! ## Keys as they are now -/

mutual

@[simp]
theorem isKey_current (key : Value) : (key.current holdings).isKey = key.isKey := by
  cases key with
  | list | vector | map =>
      rw [current]
      split <;> rfl
  | quoted form => exact isKey_current form
  | tuple items => exact areKeys_currentItems items
  | _ => rfl

@[simp]
theorem areKeys_currentItems (items : List Value) :
    areKeys (currentItems holdings items) = areKeys items := by
  cases items with
  | nil => rfl
  | cons item rest =>
      rw [currentItems, areKeys, areKeys, isKey_current item, areKeys_currentItems rest]

end

theorem sameBirth_current (stored probe : Value) :
    sameBirth stored (probe.current holdings) = sameBirth stored probe := by
  cases stored with
  | float number birth =>
      cases probe with
      | list | vector | map =>
          rw [current]
          split <;> cases number <;> rfl
      | _ => cases number <;> rfl
  | _ =>
      cases probe with
      | list | vector | map =>
          rw [current]
          split <;> rfl
      | _ => rfl

theorem equalAtom_current (stored probe : Value) :
    equalAtom stored (probe.current holdings) = equalAtom stored probe := by
  cases probe with
  | list | vector | map =>
      rw [current]
      split <;> cases stored <;> rfl
  | _ => cases stored <;> rfl

mutual

/-- A probe shares an entry with the same keys as it is now. -/
theorem sameKey_current (stored probe : Value) :
    sameKey stored (probe.current holdings) = sameKey stored probe := by
  have birth := @sameBirth_current holdings stored probe
  have atom := @equalAtom_current holdings stored probe
  cases stored with
  | str text =>
      cases probe with
      | list | vector | map =>
          rw [current]
          split <;> rfl
      | _ => rfl
  | tuple items =>
      cases probe with
      | tuple others => exact sameKeys_currentItems items others
      | quoted other => exact sameKeys_currentItems items [other]
      | list | vector | map =>
          rw [current]
          split <;> rfl
      | _ => rfl
  | quoted form =>
      cases probe with
      | tuple others =>
          rcases others with _ | ⟨other, _ | ⟨next, rest⟩⟩
          · rfl
          · exact sameKey_current form other
          · rfl
      | quoted other => exact sameKey_current form other
      | list | vector | map =>
          rw [current]
          split <;> rfl
      | _ => rfl
  | list | vector | map => simp only [sameKey]
  | _ => simp only [sameKey, birth, atom]

theorem sameKeys_currentItems (items others : List Value) :
    sameKeys items (currentItems holdings others) = sameKeys items others := by
  cases items with
  | nil => cases others <;> rfl
  | cons stored rest =>
      cases others with
      | nil => rfl
      | cons probe left =>
          rw [currentItems, sameKeys, sameKeys, sameKey_current stored probe,
            sameKeys_currentItems rest left]

end

end Value

theorem ValueEntries.get?_current {holdings : Holdings} (entries : ValueEntries) (key : Value) :
    get? entries (key.current holdings) = get? entries key := by
  have same : Entries.find? Value.sameKey (key.current holdings) entries =
      Entries.find? Value.sameKey key entries := by
    induction entries with
    | nil => rfl
    | cons entry rest inductionHypothesis =>
        obtain ⟨stored, value⟩ := entry
        rw [Entries.find?, Entries.find?, inductionHypothesis, Value.sameKey_current]
  rw [get?, get?, withKey, withKey, Value.isKey_current, same]

namespace Heap

variable {heap : Heap}

theorem ctorIdx_current (value : Value) : (heap.current value).ctorIdx = value.ctorIdx := by
  unfold Heap.current
  split
  · rfl
  · exact Value.ctorIdx_current heap.present value

theorem ctorIdx_of_current
    {value now : Value} (isNow : heap.current value = now) : value.ctorIdx = now.ctorIdx :=
  isNow ▸ (ctorIdx_current value).symm

theorem exists_present_eq (heap : Heap) :
    ∃ budget, heap.present = heap.holdings (budget + 1) [] := by
  obtain ⟨budget, isBudget⟩ : ∃ budget,
      (heap.views.length + 1) * (heap.losses.length + 1) = budget + 1 :=
    ⟨_, (Nat.succ_pred (by simp)).symm⟩
  exact ⟨budget, by rw [present, isBudget]⟩

/-- What lists and maps hold now has something to say of all that it says something of
further inside. -/
theorem covers_holdings (budget : Nat) (path : List Nat) :
    heap.present.Covers (heap.holdings budget path) := by
  constructor
  · intro birth isSome
    rw [isSome_items_present]
    cases budget with
    | zero => cases isSome
    | succ budget => simpa [holdings] using isSome
  · intro birth isSome
    rw [isSome_entries_present]
    cases budget with
    | zero => cases isSome
    | succ budget => simpa [holdings] using isSome

/-- What is left of a list is what the list holds now, as it is now. -/
theorem map_current_left
    {held left : List Value} {birth : Nat} (isLeft : heap.left? birth = some left)
    (again : heap.current (.list held birth) = .list held birth) :
    left.map heap.current = held.map heap.current := by
  have changed : ¬ heap.isUnchanged = true := by
    intro unchanged
    simp only [isUnchanged, Bool.and_eq_true, List.isEmpty_iff] at unchanged
    simp [left?, unchanged.2, Entries.find?] at isLeft
  obtain ⟨budget, isPresent⟩ := exists_present_eq heap
  rw [current, if_neg changed, Value.current, isPresent, holdings] at again
  simp only [isLeft, Option.map_some, Value.currentItems_eq] at again
  obtain ⟨rfl, -⟩ := Value.list.inj again
  rw [List.map_map]
  apply List.map_congr_left
  intro item _
  simp only [Function.comp, current, if_neg changed]
  exact (Value.current_of_current (covers_holdings budget []) item).symm

/-- A map that is a view has as many entries as its table. -/
theorem length_of_viewed
    {entries : List (Value × Value)} {birth table : Nat}
    (isView : heap.viewed? birth = some table)
    (again : heap.current (.map entries birth) = .map entries birth) :
    (heap.table table).length = entries.length := by
  have changed : ¬ heap.isUnchanged = true := by
    intro unchanged
    simp only [isUnchanged, Bool.and_eq_true, List.isEmpty_iff] at unchanged
    simp [viewed?, unchanged.1, Entries.find?] at isView
  obtain ⟨budget, isPresent⟩ := exists_present_eq heap
  rw [current, if_neg changed, Value.current, isPresent, holdings] at again
  simp only [isView, Option.map_some, List.not_mem_nil, if_false, Value.currentEntries_eq] at again
  obtain ⟨rfl, -⟩ := Value.map.inj again
  rw [List.length_map]

end Heap

theorem Action.perform_ofExcept {α : Type} (found : Except Failure α) (heap : Heap) :
    (Action.ofExcept found).perform heap = (found.mapError .failed, heap) := by
  cases found <;> rfl

namespace Access

open Eval (callerOf)

variable {call : Caller} {heap : Heap} {collection path : Value} {keys : List Value}

theorem held?_current_key (holder key : Value) :
    held? heap holder (heap.current key) = held? heap holder key := by
  by_cases unchanged : heap.isUnchanged = true
  · rw [Heap.current, if_pos unchanged]
  · rw [Heap.current, if_neg unchanged, held?, held?]
    cases heap.current holder with
    | map entries birth => simp only [ValueEntries.get?_current]
    | store id => simp only [ValueEntries.get?_current]
    | _ =>
        cases key with
        | list _ birth | vector _ birth =>
            rw [Value.current]
            cases heap.present.items birth <;> rfl
        | map _ birth =>
            rw [Value.current]
            cases heap.present.entries birth <;> rfl
        | _ => rfl

/-! ## What is met along a path -/

/-- Which values are met along a path of keys, with the keys that are left then: the value
that the path begins with, and what each of them holds under the next key. -/
inductive Met (heap : Heap) : Value → List Value → Value → List Value → Prop where
  | here {holder : Value} {keys : List Value} : Met heap holder keys holder keys
  | next {holder key next value : Value} {rest left : List Value}
      (held : held? heap holder key = .ok (some next)) (later : Met heap next rest value left) :
      Met heap holder (key :: rest) value left

/-- Whether no value that is met along a path stands for none, and no key is looked up in one
that brings a look-up operation of its own. -/
def IsPlainPath (heap : Heap) (holder : Value) (keys : List Value) : Prop :=
  ∀ value left, Met heap holder keys value left →
    (∀ id, value.isUnset id = false) ∧ (left ≠ [] → ownGetter? (heap.current value) = none)

/-- Whether no key of a path is looked up in a list or a tuple. -/
def HasNoPositions (heap : Heap) (holder : Value) (keys : List Value) : Prop :=
  ∀ value left, Met heap holder keys value left → left ≠ [] →
    positions? (heap.current value) = none

theorem IsPlainPath.next
    {holder key value : Value} {rest : List Value} (plain : IsPlainPath heap holder (key :: rest))
    (held : held? heap holder key = .ok (some value)) : IsPlainPath heap value rest :=
  fun met left isMet => plain met left (.next held isMet)

theorem HasNoPositions.next
    {holder key value : Value} {rest : List Value}
    (unplaced : HasNoPositions heap holder (key :: rest))
    (held : held? heap holder key = .ok (some value)) : HasNoPositions heap value rest :=
  fun met left isMet => unplaced met left (.next held isMet)

/-- What is held under the next key of a plain path counts. -/
theorem IsPlainPath.answered
    {holder key : Value} {rest : List Value} {found : Option Value}
    (plain : IsPlainPath heap holder (key :: rest)) (held : held? heap holder key = .ok found)
    (id : Nat) : answered id found = found := by
  cases found with
  | none => rfl
  | some value =>
      have isValue := (plain value rest (.next held .here)).1 id
      simp [Access.answered, isValue]

/-! ## Following a path -/

/-- While nothing changes, the keys to come are those that are left, as they are now. -/
theorem perform_upcoming
    (again : heap.current path = path) (isItems : (items path).perform heap = (.ok keys, heap))
    {done : Nat} {rest : List Value}
    (same : rest.map heap.current = (keys.drop done).map heap.current) :
    ∃ others, (upcoming path done rest).perform heap = (.ok others, heap) ∧
      others.map heap.current = (keys.drop done).map heap.current := by
  cases path with
  | list held birth =>
      obtain rfl : held = keys := Except.ok.inj (congrArg Prod.fst isItems)
      cases isLeft : heap.left? birth with
      | none =>
          refine ⟨rest, ?_, same⟩
          change (Action.upcoming birth done rest).perform heap = _
          rw [Action.upcoming, Action.perform_get_bind, isLeft]
          rfl
      | some left =>
          refine ⟨left.drop done, ?_, ?_⟩
          · change (Action.upcoming birth done rest).perform heap = _
            rw [Action.upcoming, Action.perform_get_bind, isLeft]
            rfl
          · rw [List.map_drop, List.map_drop, Heap.map_current_left isLeft again]
  | map entries birth =>
      have sameSize : hasChangedSize heap birth entries.length = false := by
        rw [hasChangedSize]
        cases isView : heap.viewed? birth with
        | none => rfl
        | some table => simp [Heap.length_of_viewed isView again]
      refine ⟨rest, ?_, same⟩
      rw [upcoming, Action.perform_get_bind, sameSize]
      rfl
  | _ => exact ⟨rest, rfl, same⟩

/-- A step along a plain path gives what is held there. -/
theorem perform_pathStep
    {holder key other : Value} {rest : List Value} (plain : IsPlainPath heap holder (key :: rest))
    (same : heap.current other = heap.current key) :
    (pathStep call (some holder) other).perform heap =
      ((held? heap holder key).map fun found =>
        found.elim (.enough none) fun next => .more (some next), heap) := by
  have sameHeld : held? heap holder other = held? heap holder key := by
    rw [← held?_current_key holder other, same, held?_current_key]
  have unasked := (plain holder (key :: rest) .here).2 (List.cons_ne_nil _ _)
  have looked : (lookup call holder other none).perform heap = (held? heap holder key, heap) := by
    rw [perform_lookup, answer_of_plain unasked, sameHeld]
  cases held : held? heap holder key with
  | error fault =>
      rw [held] at looked
      rw [pathStep, Action.perform_bind_error looked]
      rfl
  | ok found =>
      rw [held] at looked
      rw [pathStep, Action.perform_bind_ok looked, plain.answered held 0]
      cases found <;> rfl

theorem perform_goThrough_path
    (again : heap.current path = path) (isItems : (items path).perform heap = (.ok keys, heap))
    {budget done : Nat} {rest left : List Value} {holder : Value} (isLeft : keys.drop done = left)
    (same : rest.map heap.current = left.map heap.current) (enough : left.length < budget)
    (plain : IsPlainPath heap holder left) :
    (goThrough path (pathStep call) budget done rest (some holder)).perform heap =
      (heldAlong? heap holder left, heap) := by
  -- The keys to come may be other ones than those that are left, if the path is a list that
  -- has lost items: only what they are now is the same.
  induction budget generalizing done rest left holder with
  | zero => cases enough
  | succ budget inductionHypothesis =>
      subst isLeft
      obtain ⟨others, toCome, sameOthers⟩ := perform_upcoming again isItems same
      rw [goThrough, Action.perform_bind_ok toCome]
      cases isLeft : keys.drop done with
      | nil =>
          rw [isLeft] at sameOthers
          obtain rfl := List.map_eq_nil_iff.mp sameOthers
          rfl
      | cons key later =>
          rw [isLeft] at sameOthers enough plain
          obtain ⟨other, further, rfl, sameKey, sameFurther⟩ := List.map_eq_cons_iff.mp sameOthers
          have isLater : keys.drop (done + 1) = later := by
            rw [← List.tail_drop, isLeft, List.tail_cons]
          have stepped := @perform_pathStep call heap holder key other later plain sameKey
          cases held : held? heap holder key with
          | error fault =>
              rw [held] at stepped
              simp only
              rw [Action.perform_bind_error stepped, heldAlong?, held]
              rfl
          | ok found =>
              rw [held] at stepped
              simp only
              rw [Action.perform_bind_ok stepped, heldAlong?_of_held held, plain.answered held 0]
              cases found with
              | none => rfl
              | some next =>
                  exact inductionHypothesis isLater sameFurther
                    (Nat.lt_of_succ_lt_succ enough) (plain.next held)

/-- Along a plain path, a look-up finds what is held there. -/
theorem perform_lookupPath
    (again : heap.current path = path) (isItems : (items path).perform heap = (.ok keys, heap))
    (plain : IsPlainPath heap collection keys) :
    (lookupPath call collection path).perform heap = (heldAlong? heap collection keys, heap) := by
  rw [lookupPath, Action.perform_bind_ok isItems]
  exact perform_goThrough_path again isItems rfl rfl (Nat.lt_succ_self _) plain

/-! ## One look-up after the other -/

variable {frames : Nat}

/-- `get` for one key of a path after the other, each in what the one before it gave. -/
def getEach (call : Caller) (collection path : Value) : Action Value := do
  let keys ← items (← Action.current path)
  keys.foldlM (fun holder key => call (.builtin .get) [holder, key]) (← Action.current collection)

theorem perform_callerOf_get
    {holder : Value} (plain : ownGetter? (heap.current holder) = none) (key : Value) :
    (callerOf (frames + 1) (.builtin .get) [holder, key]).perform heap =
      ((held? heap holder key).map (·.getD .nil), heap) := by
  rw [perform_callerOf_builtin, List.map_cons, List.map_cons, List.map_nil]
  have again : ownGetter? (heap.current (heap.current holder)) = none := by
    rw [Heap.current_current, plain]
  rw [perform_get_plain again, held?_current, held?_current_key]

theorem current_nil : heap.current .nil = .nil := Heap.current_of_isPlainKey rfl

/-- Nothing is held by `nil`, whatever is looked up in it. -/
theorem perform_foldlM_nil (keys : List Value) :
    (keys.foldlM (fun holder key => callerOf (frames + 1) (.builtin .get) [holder, key])
      .nil).perform heap = (.ok .nil, heap) := by
  induction keys with
  | nil => rfl
  | cons key rest inductionHypothesis =>
      have unasked : ownGetter? (heap.current .nil) = none := by
        rw [current_nil]
        rfl
      have held : held? heap .nil key = .ok none := by
        rw [held?, current_nil]
        rfl
      have looked := @perform_callerOf_get heap frames .nil unasked key
      rw [held] at looked
      rw [List.foldlM_cons, Action.perform_bind_ok looked]
      exact inductionHypothesis

/-- Along a plain path, one look-up after the other finds what is held there. -/
theorem perform_foldlM
    {holder : Value} (plain : IsPlainPath heap holder keys) :
    (keys.foldlM (fun holder key => callerOf (frames + 1) (.builtin .get) [holder, key])
      holder).perform heap = ((heldAlong? heap holder keys).map (·.getD .nil), heap) := by
  induction keys generalizing holder with
  | nil => rfl
  | cons key rest inductionHypothesis =>
      have unasked := (plain holder (key :: rest) .here).2 (List.cons_ne_nil _ _)
      have looked := @perform_callerOf_get heap frames holder unasked key
      rw [List.foldlM_cons]
      cases held : held? heap holder key with
      | error fault =>
          rw [held] at looked
          rw [Action.perform_bind_error looked, heldAlong?, held]
          rfl
      | ok found =>
          rw [held] at looked
          rw [Action.perform_bind_ok looked, heldAlong?_of_held held, plain.answered held 0]
          cases found with
          | none => exact perform_foldlM_nil rest
          | some next => exact inductionHypothesis (plain.next held)

theorem snd_perform_items (value : Value) : ((items value).perform heap).2 = heap := by
  unfold items
  split
  · rfl
  · rfl
  · rfl
  · split <;> rfl

/-- What a path that is gone through leads to: `get-in` with a default. -/
theorem perform_getIn
    {default : Value} (isItems : (items (heap.current path)).perform heap = (.ok keys, heap))
    (plain : IsPlainPath heap (heap.current collection) keys) :
    (callerOf (frames + 1) (.builtin .getIn) [collection, path, default]).perform heap =
      ((heldAlong? heap (heap.current collection) keys).map (·.getD (heap.current default)),
        heap) := by
  have found := @perform_lookupPath (callerOf frames) heap (heap.current collection)
    (heap.current path) keys (Heap.current_current path) isItems plain
  rw [perform_callerOf_builtin]
  change (lookupPath (callerOf frames) (heap.current collection) (heap.current path) >>=
    fun given => (pure (given.getD (heap.current default)) : Action Value)).perform heap = _
  rw [Action.perform_bind, found]
  cases heldAlong? heap (heap.current collection) keys <;> rfl

/-- The default of `get-in` is `nil`, if none is given. -/
theorem perform_getIn_nil (collection path : Value) :
    (callerOf (frames + 1) (.builtin .getIn) [collection, path]).perform heap =
      (callerOf (frames + 1) (.builtin .getIn) [collection, path, .nil]).perform heap := by
  rw [perform_callerOf_builtin, perform_callerOf_builtin]
  simp only [List.map_cons, List.map_nil, current_nil]
  rfl

/-- What cannot be gone through is no path for `get-in`. -/
theorem perform_getIn_error
    {default : Value} {fault : Fault} {after : Heap}
    (isItems : (items (heap.current path)).perform heap = (.error fault, after)) :
    (callerOf (frames + 1) (.builtin .getIn) [collection, path, default]).perform heap =
      (.error fault, after) := by
  rw [perform_callerOf_builtin]
  change (lookupPath (callerOf frames) (heap.current collection) (heap.current path) >>=
    fun given => (pure (given.getD (heap.current default)) : Action Value)).perform heap = _
  rw [lookupPath, bind_assoc, Action.perform_bind_error isItems]

/-! ## From a store on -/

theorem current_store (id : Nat) : heap.current (.store id) = .store id := by
  unfold Heap.current
  split <;> rfl

/-- Nothing is held by what is no map or store and has no positions. -/
theorem held?_of_unplaced
    {holder : Value} (unplaced : positions? (heap.current holder) = none)
    (isNoMap : ∀ entries birth, holder ≠ .map entries birth) (isNoStore : ∀ id, holder ≠ .store id)
    (key : Value) : held? heap holder key = .ok none := by
  rw [held?]
  cases now : heap.current holder with
  | map held birth =>
      have isMap := Heap.ctorIdx_of_current now
      cases holder with
      | map entries other => exact absurd rfl (isNoMap entries other)
      | _ => cases isMap
  | store id =>
      have isStore := Heap.ctorIdx_of_current now
      cases holder with
      | store other => exact absurd rfl (isNoStore other)
      | _ => cases isStore
  | _ =>
      rw [now] at unplaced
      simp only [unplaced]
      rfl

theorem find?_currentMembers
    (holdings : Holdings) (name : String) (members : List (String × Value)) :
    Entries.find? (· == ·) name (Value.currentMembers holdings members) =
      (Entries.find? (· == ·) name members).map (Value.current holdings) := by
  induction members with
  | nil => rfl
  | cons member rest inductionHypothesis =>
      obtain ⟨stored, held⟩ := member
      rw [Value.currentMembers, Value.currentMember, Entries.find?, Entries.find?,
        inductionHypothesis]
      cases stored == name <;> rfl

/-- A value that has no look-up operation of its own now never had one. -/
theorem ownGetter?_of_current
    {value : Value} (plain : ownGetter? (heap.current value) = none) :
    ownGetter? value = none := by
  by_cases unchanged : heap.isUnchanged = true
  · rwa [Heap.current, if_pos unchanged] at plain
  · rw [Heap.current, if_neg unchanged] at plain
    cases value with
    | event id origin members =>
        rw [Value.current, ownGetter?, find?_currentMembers] at plain
        rw [ownGetter?]
        cases isMember : Entries.find? (· == ·) "get" members with
        | none => rfl
        | some held =>
            rw [isMember, Option.map_some] at plain
            have sameKind := Value.ctorIdx_current heap.present held
            cases now : Value.current heap.present held with
            | nil =>
                rw [now] at sameKind
                cases held with
                | nil => rfl
                | _ => cases sameKind
            | _ =>
                rw [now] at plain
                cases plain
    | _ => rfl

theorem followPath_none (call : Caller) (keys : List Value) :
    followPath call none keys = pure none := by
  cases keys <;> rfl

/-- What looking a key up in a map or a store gives on a path that begins at a store. -/
theorem perform_getWith
    {holder key : Value} {entries : ValueEntries}
    (isHolder : (∃ birth, heap.current holder = .map entries birth) ∨
      ∃ id, heap.current holder = .store id ∧ heap.entries id = entries) :
    (getWith call (.member holder "get") key (some unsetInStore)).perform heap =
      ((held? heap holder key).map (· <|> some unsetInStore), heap) := by
  change (getPlainly call (.member holder "get") key (some unsetInStore)).perform heap = _
  have isMember : (Action.current (.member holder "get")).perform heap =
      (.ok (.member (heap.current holder) "get"), heap) := by
    rw [← current_member]
    rfl
  rw [getPlainly, Action.perform_bind_ok isMember, held?]
  rcases isHolder with ⟨birth, isMap⟩ | ⟨id, isStore, rfl⟩
  · rw [isMap]
    exact perform_found ..
  · rw [isStore]
    exact perform_found ..

/-- A step through a map or a store, if the rest of the path leads to what is held there. -/
theorem perform_getWith_followPath
    {holder key : Value} {entries : ValueEntries} {rest : List Value}
    (isHolder : (∃ birth, heap.current holder = .map entries birth) ∨
      ∃ id, heap.current holder = .store id ∧ heap.entries id = entries)
    (plain : IsPlainPath heap holder (key :: rest))
    (followed : ∀ next, held? heap holder key = .ok (some next) →
      (followPath call (some next) rest).perform heap = (heldAlong? heap next rest, heap)) :
    (getWith call (.member holder "get") key (some unsetInStore) >>= fun next =>
      followPath call (answered 1 next) rest).perform heap =
        (heldAlong? heap holder (key :: rest), heap) := by
  have given := @perform_getWith call heap holder key entries isHolder
  cases held : held? heap holder key with
  | error fault =>
      rw [held] at given
      rw [Action.perform_bind_error given, heldAlong?, held]
      rfl
  | ok found =>
      rw [held] at given
      rw [Action.perform_bind_ok given, heldAlong?_of_held held, plain.answered held 0]
      cases found with
      | none =>
          have isNone : answered 1 (none <|> some unsetInStore) = none := rfl
          rw [isNone, followPath_none]
          rfl
      | some next =>
          have isNext : answered 1 (some next <|> some unsetInStore) = some next :=
            plain.answered held 1
          rw [isNext]
          exact followed next held

/-- Along a plain path without positions, following the path from a store on finds what is
held there. -/
theorem perform_followPath
    {holder : Value} (plain : IsPlainPath heap holder keys)
    (unplaced : HasNoPositions heap holder keys) :
    (followPath call (some holder) keys).perform heap = (heldAlong? heap holder keys, heap) := by
  induction keys generalizing holder with
  | nil => cases holder <;> rfl
  | cons key rest inductionHypothesis =>
      have unasked := (plain holder (key :: rest) .here).2 (List.cons_ne_nil _ _)
      have isGetter := @perform_getter? heap holder
      have followed (next : Value) (held : held? heap holder key = .ok (some next)) :=
        @inductionHypothesis next (plain.next held) (unplaced.next held)
      cases holder with
      | nil =>
          have held : held? heap .nil key = .ok none := by
            rw [held?, current_nil]
            rfl
          rw [heldAlong?_of_held held]
          rfl
      | map entries birth =>
          rw [followPath, Action.perform_bind_ok isGetter]
          have isMap := @Heap.ctorIdx_current heap (.map entries birth)
          cases now : heap.current (.map entries birth) with
          | map held other => exact perform_getWith_followPath (.inl ⟨other, now⟩) plain followed
          | _ =>
              rw [now] at isMap
              cases isMap
          intro isOther
          cases isOther
      | store id =>
          rw [followPath, Action.perform_bind_ok isGetter]
          exact perform_getWith_followPath (.inr ⟨id, current_store id, rfl⟩) plain followed
          intro isOther
          cases isOther
      | _ =>
          rw [ownGetter?_of_current unasked] at isGetter
          have held := held?_of_unplaced
            (unplaced _ (key :: rest) .here (List.cons_ne_nil _ _))
            (fun _ _ isMap => by cases isMap) (fun _ isStore => by cases isStore) key
          rw [followPath, Action.perform_bind_ok isGetter, heldAlong?_of_held held]
          exact congrArg (Action.perform · heap) (followPath_none call rest)
          intro isOther
          cases isOther

/-- A text that has a first character is present. -/
theorem isEmpty_of_ofChars
    {text : String} {key : Value} {rest : List Value} (isText : Value.ofChars text = key :: rest) :
    text.isEmpty = false := by
  rw [String.isEmpty_eq_false_iff]
  rintro rfl
  cases isText

theorem perform_isPresent
    {key : Value} {rest : List Value} (isPath : positioned? path = some (key :: rest)) :
    (isPresent path).perform heap = (.ok true, heap) := by
  cases path with
  | list items birth =>
      cases isPath
      rfl
  | tuple items =>
      cases isPath
      rfl
  | str text | keyword text | symbol text =>
      have present := isEmpty_of_ofChars (Option.some.inj isPath)
      simp only [isPresent, Value.toNumeric?, Value.toText?, present]
      rfl
  | vector | quoted => rfl
  | _ => cases isPath

theorem perform_items
    (isPath : positioned? path = some keys) : (items path).perform heap = (.ok keys, heap) := by
  cases path with
  | list | tuple | vector | quoted | str | keyword | symbol =>
      cases isPath
      rfl
  | _ => cases isPath

theorem perform_itemAt_zero
    {key : Value} {rest : List Value} (isPath : positioned? path = some (key :: rest)) :
    (itemAt path (.int 0)).perform heap = (.ok key, heap) := by
  cases path with
  | map => cases isPath
  | _ =>
      simp only [itemAt, isPath]
      rfl

/-- Any value but `nil`, and a default in the place of `nil`. -/
def orDefault (default : Value) : Value → Value
  | .nil => default
  | value => value

/-- Along a plain path without positions, the `get_in` of a store gives what is held there,
unless it is `nil`. -/
theorem perform_store_getIn
    {id : Nat} {default : Value} (isPath : positioned? path = some keys) (isSome : keys ≠ [])
    (plain : IsPlainPath heap (.store id) keys) (unplaced : HasNoPositions heap (.store id) keys) :
    (Store.getIn call id path default).perform heap =
      ((heldAlong? heap (.store id) keys).map fun found => orDefault default (found.getD .nil),
        heap) := by
  cases keys with
  | nil => cases isSome rfl
  | cons key rest =>
      have isRest : (itemsAfterFirst path).perform heap = (.ok rest, heap) := by
        rw [itemsAfterFirst, isPath]
        rfl
      have stored : (Store.find? id key).perform heap = (held? heap (.store id) key, heap) := by
        rw [held?, current_store]
        exact Action.perform_ofExcept (ValueEntries.get? (heap.entries id) key) heap
      rw [Store.getIn, Action.perform_bind_ok (perform_isPresent isPath), if_pos rfl,
        Action.perform_bind_ok (perform_itemAt_zero isPath)]
      cases held : held? heap (.store id) key with
      | error fault =>
          rw [held] at stored
          rw [Action.perform_bind_error stored, heldAlong?, held]
          rfl
      | ok found =>
          rw [held] at stored
          rw [Action.perform_bind_ok stored, Action.perform_bind_ok isRest, plain.answered held 1,
            heldAlong?_of_held held, plain.answered held 0]
          cases found with
          | none =>
              rw [followPath_none]
              rfl
          | some next =>
              have followed := @perform_followPath call heap rest next (plain.next held)
                (unplaced.next held)
              rw [Action.perform_bind, followed]
              simp only
              rcases heldAlong? heap next rest with fault | _ | _ | _ <;> rfl

/-- On a path without look-up operations of the values' own, and without values that stand
for none, all ways to look up the keys agree.  The `get_in` of a store gives what `get-in`
gives, or the default in the place of `nil`, if no key is looked up in a list or a tuple.
`get-in` gives what `get` gives for one key after the other, on a collection of keys of any
sort.  Each fails just where the other one does, in the same way. -/
theorem getIn_agrees :
    (∀ id default keys, positioned? (heap.current path) = some keys → keys ≠ [] →
      IsPlainPath heap (.store id) keys → HasNoPositions heap (.store id) keys →
        ∃ outcome,
          (callerOf (frames + 1) (.builtin .getIn) [.store id, path, default]).perform heap =
            (outcome, heap) ∧
          (callerOf (frames + 1) (.member (.store id) "get_in") [path, default]).perform heap =
            (outcome.map (orDefault (heap.current default)), heap)) ∧
    ∀ collection,
      (∀ keys, (items (heap.current path)).perform heap = (.ok keys, heap) →
        IsPlainPath heap (heap.current collection) keys) →
      (callerOf (frames + 1) (.builtin .getIn) [collection, path]).perform heap =
        (getEach (callerOf (frames + 1)) collection path).perform heap := by
  constructor
  · intro id default keys isPath isSome plain unplaced
    have found := @perform_getIn heap (.store id) path keys frames default (perform_items isPath)
      (by rwa [current_store])
    rw [current_store] at found
    refine ⟨_, found, ?_⟩
    rw [Device.perform_callerOf_store, ← Heap.map_current_eq, List.map_cons, List.map_cons,
      List.map_nil]
    change (Store.getIn (callerOf frames) id (heap.current path) (heap.current default)).perform
      heap = _
    rw [perform_store_getIn isPath isSome plain unplaced]
    rcases heldAlong? heap (.store id) keys with fault | _ | value
    · rfl
    · cases isDefault : heap.current default <;> rfl
    · rfl
  · intro collection plain
    have isPath : (Action.current path).perform heap = (.ok (heap.current path), heap) := rfl
    have isStart : (Action.current collection).perform heap =
        (.ok (heap.current collection), heap) := rfl
    rw [perform_getIn_nil, getEach, Action.perform_bind_ok isPath]
    have unchanged := @snd_perform_items heap (heap.current path)
    rcases isItems : (items (heap.current path)).perform heap with ⟨fault | keys, after⟩
    · rw [perform_getIn_error isItems, Action.perform_bind_error isItems]
    · rw [isItems] at unchanged
      obtain rfl : after = heap := unchanged
      rw [perform_getIn isItems (plain keys isItems), Action.perform_bind_ok isItems,
        Action.perform_bind_ok isStart, perform_foldlM (plain keys isItems), current_nil]

/-- A store of players that is held by another store, and a player without a title. -/
def playersHeap : Heap :=
  { Heap.empty with
    tables := #[[(.str "players", .store 1)], [(.int 1, .map [(.str "title", .nil)] 2)]]
    stores := #[⟨"globals", 0⟩, ⟨"players", 1⟩] }

/-- The path to the title of the first player, in other spellings than in the stores. -/
def titleKeys : List Value := [.keyword "players", .bool true, .keyword "title"]

theorem met_titleKeys
    {value : Value} {left : List Value} (met : Met playersHeap (.store 0) titleKeys value left) :
    value = .store 0 ∨ value = .store 1 ∨ value = .map [(.str "title", .nil)] 2 ∨
      (value = .nil ∧ left = []) := by
  cases met with
  | here => exact .inl rfl
  | next held met =>
      obtain rfl := Option.some.inj (Except.ok.inj held)
      cases met with
      | here => exact .inr (.inl rfl)
      | next held met =>
          obtain rfl := Option.some.inj (Except.ok.inj held)
          cases met with
          | here => exact .inr (.inr (.inl rfl))
          | next held met =>
              obtain rfl := Option.some.inj (Except.ok.inj held)
              cases met
              exact .inr (.inr (.inr ⟨rfl, rfl⟩))

theorem isPlainPath_titleKeys : IsPlainPath playersHeap (.store 0) titleKeys := by
  intro value left met
  rcases met_titleKeys met with rfl | rfl | rfl | ⟨rfl, rfl⟩
  · exact ⟨fun _ => rfl, fun _ => rfl⟩
  · exact ⟨fun _ => rfl, fun _ => rfl⟩
  · exact ⟨fun _ => rfl, fun _ => rfl⟩
  · exact ⟨fun _ => rfl, fun _ => rfl⟩

theorem hasNoPositions_titleKeys : HasNoPositions playersHeap (.store 0) titleKeys := by
  intro value left met _
  rcases met_titleKeys met with rfl | rfl | rfl | ⟨rfl, rfl⟩
  · rfl
  · rfl
  · rfl
  · rfl

theorem getIn_agrees_title :
    positioned? (playersHeap.current (.list titleKeys 3)) = some titleKeys ∧ titleKeys ≠ [] ∧
      IsPlainPath playersHeap (.store 0) titleKeys ∧
      HasNoPositions playersHeap (.store 0) titleKeys ∧
      (∃ outcome,
        (callerOf 1 (.builtin .getIn) [.store 0, .list titleKeys 3, .int 7]).perform playersHeap =
          (outcome, playersHeap) ∧
        (callerOf 1 (.member (.store 0) "get_in") [.list titleKeys 3, .int 7]).perform
          playersHeap = (outcome.map (orDefault (.int 7)), playersHeap)) ∧
      (callerOf 1 (.member (.store 0) "get_in") [.list titleKeys 3, .int 7]).perform
          playersHeap = (.ok (.int 7), playersHeap) ∧
      (callerOf 1 (.builtin .getIn) [.store 0, .list titleKeys 3]).perform playersHeap =
        (getEach (callerOf 1) (.store 0) (.list titleKeys 3)).perform playersHeap := by
  have isSome : titleKeys ≠ [] := List.cons_ne_nil _ _
  refine ⟨rfl, isSome, isPlainPath_titleKeys, hasNoPositions_titleKeys, ?_, rfl, ?_⟩
  · exact getIn_agrees.1 0 (.int 7) titleKeys rfl isSome isPlainPath_titleKeys
      hasNoPositions_titleKeys
  · apply getIn_agrees.2 (.store 0)
    intro keys isItems
    obtain rfl : titleKeys = keys := Except.ok.inj (congrArg Prod.fst isItems)
    exact isPlainPath_titleKeys

/-- An event that brings a look-up operation of its own, which lists what it is given. -/
def listing : Value :=
  .event 5 .record [(Event.kindMember, .kind .beat), ("get", .builtin .list)]

/-- A heap with a store that holds the event. -/
def listingHeap : Heap :=
  { Heap.empty with
    tables := #[[(.str "e", listing)]]
    stores := #[⟨"globals", 0⟩] }

/-- A look-up operation that a value brings itself is handed what stands for no default, and
can give it back: that is one thing for `get-in`, another for a store, and `nil` for `get`. -/
theorem getIn_apart :
    ((callerOf 2 (.builtin .getIn)
        [.store 0, .list [.str "e", .str "x"] 3]).perform listingHeap).1 =
      .ok (.list [.str "x", .unset 0] 2) ∧
    ((callerOf 2 (.member (.store 0) "get_in")
        [.list [.str "e", .str "x"] 3]).perform listingHeap).1 =
      .ok (.list [.str "x", .unset 1] 2) ∧
    ((getEach (callerOf 2) (.store 0) (.list [.str "e", .str "x"] 3)).perform listingHeap).1 =
      .ok (.list [.str "x", .nil] 2) := by
  exact ⟨rfl, rfl, rfl⟩

end Access

end CueScript
