import CueScript.Proofs.Event.Track
import CueScript.Proofs.Store.Life

/-!
# Looking up and asking

`get` gives what a collection holds under a key, and `contains?` tells whether it holds
something there.  In `nil`, a map or a store the two agree on every plain key.

A list holds its items at positions.  `contains?` and `nth` know only the positions from the
first item on; `get` also knows negative ones, which it counts from the last item back.
-/

namespace CueScript

/-- What an order relation says of two integers. -/
def Comparison.Relates : Comparison → Int → Int → Prop
  | less, a, b => a < b
  | greater, a, b => a > b
  | atMost, a, b => a ≤ b
  | atLeast, a, b => a ≥ b

theorem Comparison.holds_compare_iff (relation : Comparison) (a b : Int) :
    relation.holds (compare a b) = true ↔ relation.Relates a b := by
  cases relation with
  | less => exact Ordering.isLT_iff_eq_lt.trans compare_lt_iff_lt
  | greater => exact Ordering.isGT_iff_eq_gt.trans compare_gt_iff_gt
  | atMost => exact Std.isLE_compare
  | atLeast => exact Std.isGE_compare

namespace Value

theorem compares_int (relation : Comparison) (a b : Int) :
    compares relation (.int a) (.int b) = .ok (relation.holds (compare a b)) := rfl

/-- Whether a value is `nil`, a list, a map or a store. -/
def isCollection : Value → Bool
  | .nil | .list .. | .map .. | .store _ => true
  | _ => false

end Value

theorem Heap.current_of_isPlainKey
    {heap : Heap} {key : Value} (plain : key.IsPlainKey) : heap.current key = key := by
  unfold Heap.current
  split
  · rfl
  · exact Value.current_of_isPlainKey plain heap.present

theorem Entries.isSome_find?
    {κ α : Type} (same : κ → κ → Bool) (probe : κ) (entries : Entries κ α) :
    (find? same probe entries).isSome = has same probe entries := by
  induction entries with
  | nil => rfl
  | cons entry rest inductionHypothesis =>
      obtain ⟨stored, value⟩ := entry
      rw [find?, has, List.any_cons, ← has, ← inductionHypothesis]
      cases same stored probe <;> rfl

theorem Entries.mem_values_of_find?
    {κ α : Type} {same : κ → κ → Bool} {probe : κ} {entries : Entries κ α} {value : α}
    (found : find? same probe entries = some value) : value ∈ values entries := by
  induction entries with
  | nil => cases found
  | cons entry rest inductionHypothesis =>
      obtain ⟨stored, old⟩ := entry
      rw [find?] at found
      by_cases here : same stored probe = true
      · rw [if_pos here] at found
        cases found
        exact List.mem_cons_self
      · rw [if_neg here] at found
        exact List.mem_cons_of_mem old (inductionHypothesis found)

namespace Access

open Eval (callerOf)

/-! ## Positions -/

/-- A position that is not negative is counted from the first item on. -/
theorem nthItem?_of_nonneg {items : List Value} {position : Int} (isForward : 0 ≤ position) :
    nthItem? items position = items[position.toNat]? := if_pos isForward

/-- A negative position is counted from the last item back. -/
theorem nthItem?_of_neg {items : List Value} {position : Int} (isBackward : position < 0) :
    nthItem? items position = items.reverse[(-position - 1).toNat]? := by
  rw [nthItem?, if_neg (Int.not_le.mpr isBackward)]
  by_cases inside : -(items.length : Int) ≤ position
  · have counted : (items.length + position).toNat =
        items.length - 1 - (-position - 1).toNat := by omega
    rw [if_pos inside, List.getElem?_reverse (by omega), counted]
  · rw [if_neg inside]
    apply Eq.symm
    apply List.getElem?_eq_none
    rw [List.length_reverse]
    omega

theorem isSome_nthItem?_of_nonneg
    {items : List Value} {position : Int} (isForward : 0 ≤ position) :
    (nthItem? items position).isSome = decide (0 ≤ position ∧ position < items.length) := by
  rw [nthItem?_of_nonneg isForward, Bool.eq_iff_iff, decide_eq_true_iff, isSome_getElem?]
  omega

theorem mem_of_nthItem?
    {items : List Value} {position : Int} {item : Value}
    (found : nthItem? items position = some item) : item ∈ items := by
  by_cases isForward : 0 ≤ position
  · rw [nthItem?_of_nonneg isForward] at found
    exact List.mem_of_getElem? found
  · rw [nthItem?_of_neg (Int.not_le.mp isForward)] at found
    exact List.mem_reverse.mp (List.mem_of_getElem? found)

/-! ## What a collection holds -/

variable {call : Caller} {heap : Heap} {collection key default : Value}

/-- The values that a collection holds now: the items of a list, the values of a map or a
store. -/
def contents (heap : Heap) (collection : Value) : List Value :=
  match heap.current collection with
  | .list items _ => items
  | .map entries _ => Entries.values entries
  | .store id => Entries.values (heap.entries id)
  | _ => []

/-- Whether a key is no position of a list that counts from its end, and no truth value in
the place of a position. -/
def countsForward : (collection key : Value) → Bool
  | .list .., .int position => decide (0 ≤ position)
  | .list .., .bool _ => false
  | _, _ => true

theorem held?_current (holder key : Value) :
    held? heap (heap.current holder) key = held? heap holder key := by
  rw [held?, Heap.current_current]
  rfl

theorem ownGetter?_of_isCollection (isCollection : collection.isCollection = true) :
    ownGetter? collection = none := by
  cases collection with
  | nil | list | map | store => rfl
  | _ => cases isCollection

/-- What is held is one of the values that the collection holds. -/
theorem mem_contents_of_held
    {value : Value} (held : held? heap collection key = .ok (some value))
    (isCollection : (heap.current collection).isCollection = true) :
    value ∈ contents heap collection := by
  have found {entries : ValueEntries}
      (isFound : (ValueEntries.get? entries key).mapError .failed =
        (.ok (some value) : Except Fault (Option Value))) :
      value ∈ Entries.values entries := by
    rw [ValueEntries.get?, ValueEntries.withKey] at isFound
    by_cases isKey : key.isKey = true
    · rw [if_pos isKey] at isFound
      exact Entries.mem_values_of_find? (Except.ok.inj isFound)
    · rw [if_neg isKey] at isFound
      cases isFound
  rw [contents]
  rw [held?] at held
  cases now : heap.current collection with
  | nil =>
      rw [now] at held
      cases held
  | list items birth =>
      rw [now] at held
      cases key with
      | int position => exact mem_of_nthItem? (Except.ok.inj held)
      | _ => cases held
  | map entries birth =>
      rw [now] at held
      exact found held
  | store id =>
      rw [now] at held
      exact found held
  | _ =>
      rw [now] at isCollection
      cases isCollection

/-- What a collection holds under a plain key can be told without a fault. -/
theorem exists_held_of_isPlainKey (collection : Value) (plain : key.IsPlainKey) :
    ∃ found, held? heap collection key = .ok found := by
  have known (entries : ValueEntries) :
      (ValueEntries.get? entries key).mapError Fault.failed =
        .ok (Entries.find? Value.sameKey key entries) := by
    rw [ValueEntries.get?, ValueEntries.withKey, if_pos (Value.isKey_of_isPlainKey plain)]
    rfl
  rw [held?]
  split
  · exact ⟨_, known _⟩
  · exact ⟨_, known _⟩
  · split <;> exact ⟨_, rfl⟩

/-! ## Asking whether a key is there -/

/-- `contains?` tells whether something is held under a plain key, unless a list is asked for
a position that is none from its first item on. -/
theorem perform_contains
    {found : Option Value} (held : held? heap collection key = .ok found)
    (isCollection : (heap.current collection).isCollection = true) (plain : key.IsPlainKey)
    (forward : countsForward (heap.current collection) key = true) :
    (Collection.contains (heap.current collection) key).perform heap =
      (.ok found.isSome, heap) := by
  have asked (entries : ValueEntries)
      (isHeld : (ValueEntries.get? entries key).mapError Fault.failed = .ok found) :
      (Action.ofExcept (ValueEntries.has entries key)).perform heap = (.ok found.isSome, heap) := by
    rw [ValueEntries.get?, ValueEntries.withKey, if_pos (Value.isKey_of_isPlainKey plain)] at isHeld
    rw [ValueEntries.has, ValueEntries.withKey, if_pos (Value.isKey_of_isPlainKey plain),
      ← Entries.isSome_find?, Except.ok.inj isHeld]
    rfl
  rw [held?] at held
  cases now : heap.current collection with
  | nil =>
      rw [now] at held
      cases held
      rfl
  | list items birth =>
      rw [now] at held forward
      cases key with
      | nil | str | keyword =>
          cases held
          rfl
      | bool flag => cases forward
      | int position =>
          cases held
          rw [isSome_nthItem?_of_nonneg (of_decide_eq_true forward)]
          rfl
      | _ => cases plain
  | map entries birth =>
      rw [now] at held
      exact asked entries held
  | store id =>
      rw [now] at held
      exact asked (heap.entries id) held
  | _ =>
      rw [now] at isCollection
      cases isCollection

/-- `get` gives what a collection holds under a key, or the default. -/
theorem perform_get_default
    {found : Option Value} (held : held? heap collection key = .ok found)
    (isCollection : (heap.current collection).isCollection = true) :
    (Call.perform call .get [heap.current collection, key, default]).perform heap =
      (.ok (found.getD default), heap) := by
  have looked : (lookup call (heap.current collection) key (some default)).perform heap =
      (.ok (found <|> some default), heap) := by
    rw [perform_lookup, answer, Heap.current_current, ownGetter?_of_isCollection isCollection,
      held?_current, held]
    rfl
  change ((lookup call (heap.current collection) key (some default) >>= fun given =>
    (pure (given.getD default) : Action Value))).perform heap = _
  rw [Action.perform_bind_ok looked]
  cases found <;> rfl

/-- `nth` gives the item of a list at a position that is counted from the first item on, or
the default. -/
theorem perform_nth_list (items : List Value) (birth : Nat) (position : Int) :
    (Call.perform call .nth [.list items birth, .int position, default]).perform heap =
      (.ok (if 0 ≤ position then (nthItem? items position).getD default else default), heap) := by
  change (Collection.nth (.list items birth) (.int position) (some default)).perform heap = _
  simp only [Collection.nth, Value.compares_int]
  by_cases isForward : 0 ≤ position
  · have isAtMost := (Comparison.atMost.holds_compare_iff 0 position).mpr isForward
    rw [isAtMost, if_pos isForward]
    change (if Comparison.less.holds (compare position (items.length : Int)) = true then
      itemAt (.list items birth) (.int position) else pure default : Action Value).perform heap = _
    by_cases inside : position < items.length
    · rw [if_pos ((Comparison.less.holds_compare_iff _ _).mpr inside)]
      have isItem : (nthItem? items position).isSome = true := by
        rw [isSome_nthItem?_of_nonneg isForward]
        exact decide_eq_true ⟨isForward, inside⟩
      obtain ⟨item, found⟩ := Option.isSome_iff_exists.mp isItem
      simp only [itemAt, positioned?, Value.toInt?, found]
      rfl
    · rw [if_neg (mt (Comparison.less.holds_compare_iff _ _).mp inside),
        nthItem?_of_nonneg isForward, List.getElem?_eq_none (by omega)]
      rfl
  · have notAtMost := mt (Comparison.atMost.holds_compare_iff 0 position).mp isForward
    rw [Bool.eq_false_iff.mpr notAtMost, if_neg isForward]
    rfl

/-! ## Calls -/

variable {frames : Nat} {items : List Value} {birth : Nat} {position : Int} {found : Option Value}

/-- A built-in function is carried out on its arguments as they are now. -/
theorem perform_callerOf_builtin (builtin : Builtin) (args : List Value) :
    (callerOf (frames + 1) (.builtin builtin) args).perform heap =
      (Call.perform (callerOf frames) builtin (args.map heap.current)).perform heap := by
  rw [Heap.map_current_eq]
  rfl

theorem perform_callerOf_contains (plain : key.IsPlainKey) :
    (callerOf (frames + 1) (.builtin .contains) [collection, key]).perform heap =
      (Collection.contains (heap.current collection) key >>= fun present =>
        (pure (.bool present) : Action Value)).perform heap := by
  rw [perform_callerOf_builtin, List.map_cons, List.map_cons, List.map_nil,
    Heap.current_of_isPlainKey plain]
  rfl

theorem perform_callerOf_contains_forward
    (held : held? heap collection key = .ok found)
    (isCollection : (heap.current collection).isCollection = true) (plain : key.IsPlainKey)
    (forward : countsForward (heap.current collection) key = true) :
    (callerOf (frames + 1) (.builtin .contains) [collection, key]).perform heap =
      (.ok (.bool found.isSome), heap) := by
  rw [perform_callerOf_contains plain,
    Action.perform_bind_ok (perform_contains held isCollection plain forward)]
  rfl

theorem perform_callerOf_get_default
    (held : held? heap collection key = .ok found)
    (isCollection : (heap.current collection).isCollection = true) (plain : key.IsPlainKey) :
    (callerOf (frames + 1) (.builtin .get) [collection, key, default]).perform heap =
      (.ok (found.getD (heap.current default)), heap) := by
  rw [perform_callerOf_builtin, List.map_cons, List.map_cons, List.map_cons, List.map_nil,
    Heap.current_of_isPlainKey plain]
  exact perform_get_default held isCollection

theorem perform_callerOf_nth (isList : heap.current collection = .list items birth) :
    (callerOf (frames + 1) (.builtin .nth) [collection, .int position, default]).perform heap =
      (.ok (if 0 ≤ position then (nthItem? items position).getD (heap.current default)
        else heap.current default), heap) := by
  rw [perform_callerOf_builtin, List.map_cons, List.map_cons, List.map_cons, List.map_nil,
    isList, Heap.current_int]
  exact perform_nth_list items birth position

/-! ## Agreement -/

/-- `contains?` holds of just the plain keys under which `get` gives something else than a
default that is nowhere in the collection; a list is asked only for positions from its first
item on, and there `nth` gives what `get` gives.  At a negative position, where `contains?` and
`nth` find nothing, `get` gives the item that is so far from the end of the list. -/
theorem contains_iff_get
    (isCollection : (heap.current collection).isCollection = true) (plain : key.IsPlainKey) :
    (countsForward (heap.current collection) key = true →
      heap.current default ∉ contents heap collection →
        ∃ present given,
          (callerOf (frames + 1) (.builtin .contains) [collection, key]).perform heap =
            (.ok (.bool present), heap) ∧
          (callerOf (frames + 1) (.builtin .get) [collection, key, default]).perform heap =
            (.ok given, heap) ∧
          (present = true ↔ given ≠ heap.current default)) ∧
    (heap.current collection = .list items birth → key = .int position →
      (0 ≤ position →
        (callerOf (frames + 1) (.builtin .nth) [collection, key, default]).perform heap =
          (callerOf (frames + 1) (.builtin .get) [collection, key, default]).perform heap) ∧
      (position < 0 →
        (callerOf (frames + 1) (.builtin .contains) [collection, key]).perform heap =
          (.ok (.bool false), heap) ∧
        (callerOf (frames + 1) (.builtin .nth) [collection, key, default]).perform heap =
          (.ok (heap.current default), heap) ∧
        (callerOf (frames + 1) (.builtin .get) [collection, key, default]).perform heap =
          (.ok (items.reverse[(-position - 1).toNat]?.getD (heap.current default)), heap))) := by
  obtain ⟨found, held⟩ := @exists_held_of_isPlainKey heap key collection plain
  have given := @perform_callerOf_get_default heap collection key default frames found held
    isCollection plain
  constructor
  · intro forward nowhere
    refine ⟨_, _, perform_callerOf_contains_forward held isCollection plain forward, given, ?_⟩
    cases isHeld : found with
    | none => simp
    | some value =>
        have isContent := mem_contents_of_held (isHeld ▸ held) isCollection
        have different : value ≠ heap.current default := fun same => nowhere (same ▸ isContent)
        simpa using different
  · rintro isList rfl
    have reached := @perform_callerOf_nth heap collection default frames items birth position isList
    have isItem : nthItem? items position = found := by
      rw [held?, isList] at held
      exact Except.ok.inj held
    constructor
    · intro isForward
      rw [reached, given, if_pos isForward, isItem]
    · intro isBackward
      have notForward : ¬ 0 ≤ position := Int.not_le.mpr isBackward
      refine ⟨?_, ?_, ?_⟩
      · rw [perform_callerOf_contains plain, isList]
        simp [Collection.contains, Value.toInt?, notForward]
      · rw [reached, if_neg notForward]
      · rw [given, ← isItem, nthItem?_of_neg isBackward]

/-- A list of two numbers. -/
def tens : Value := .list [.int 10, .int 20] 2

theorem keyword_notMem_tens (name : String) :
    Heap.empty.current (.keyword name) ∉ contents Heap.empty tens := by
  change Value.keyword name ∉ [Value.int 10, Value.int 20]
  simp

theorem contains_iff_get_tens :
    (Heap.empty.current tens).isCollection = true ∧ (Value.int 1).IsPlainKey ∧
      (∃ present given,
        (callerOf 1 (.builtin .contains) [tens, .int 1]).perform Heap.empty =
          (.ok (.bool present), Heap.empty) ∧
        (callerOf 1 (.builtin .get) [tens, .int 1, .keyword "none"]).perform Heap.empty =
          (.ok given, Heap.empty) ∧
        (present = true ↔ given ≠ .keyword "none")) ∧
      (callerOf 1 (.builtin .nth) [tens, .int 1, .keyword "none"]).perform Heap.empty =
        (callerOf 1 (.builtin .get) [tens, .int 1, .keyword "none"]).perform Heap.empty ∧
      (callerOf 1 (.builtin .get) [tens, .int (-2), .keyword "none"]).perform Heap.empty =
        (.ok (.int 10), Heap.empty) := by
  have isCollection : (Heap.empty.current tens).isCollection = true := rfl
  have plain : (Value.int 1).IsPlainKey := rfl
  have backward : (Value.int (-2)).IsPlainKey := rfl
  refine ⟨isCollection, plain, ?_, ?_, ?_⟩
  · exact (@contains_iff_get Heap.empty tens (.int 1) (.keyword "none") 0
      [.int 10, .int 20] 2 1 isCollection plain).1 rfl (keyword_notMem_tens "none")
  · exact ((contains_iff_get isCollection plain).2 rfl rfl).1 (by decide)
  · exact (((contains_iff_get isCollection backward).2 rfl rfl).2 (by decide)).2.2

/-- `get` finds the last item of a list at position -1, where `contains?` and `nth` find
nothing; and `contains?` takes `true` for the position 1, which `get` does not. -/
theorem contains_get_apart :
    Heap.empty.current (.keyword "none") ∉ contents Heap.empty tens ∧
      (callerOf 1 (.builtin .contains) [tens, .int (-1)]).perform Heap.empty =
        (.ok (.bool false), Heap.empty) ∧
      (callerOf 1 (.builtin .get) [tens, .int (-1), .keyword "none"]).perform Heap.empty =
        (.ok (.int 20), Heap.empty) ∧
      (callerOf 1 (.builtin .nth) [tens, .int (-1), .keyword "none"]).perform Heap.empty =
        (.ok (.keyword "none"), Heap.empty) ∧
      (callerOf 1 (.builtin .contains) [tens, .bool true]).perform Heap.empty =
        (.ok (.bool true), Heap.empty) ∧
      (callerOf 1 (.builtin .get) [tens, .bool true, .keyword "none"]).perform Heap.empty =
        (.ok (.keyword "none"), Heap.empty) := by
  exact ⟨keyword_notMem_tens "none", rfl, rfl, rfl, rfl, rfl⟩

end Access

end CueScript
