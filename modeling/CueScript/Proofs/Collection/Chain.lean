import CueScript.Proofs.Collection.Equality
import CueScript.Proofs.Collection.Lookup
import Mathlib.Data.List.Chain

/-!
# Comparing several values

`=` and the order relations compare each argument with the next.  That is as good as
comparing each argument with all later ones, since equality of data is an equivalence and the
orders of integers are transitive.

Equal plain keys, however they are spelled, are the same key of every map and store.
-/

namespace CueScript

open Access (perform_callerOf_builtin held?)
open Eval (callerOf)

/-! ## Neighbours -/

/-- In a chain of things among which a relation is transitive, it holds between all. -/
theorem pairwise_of_isChain
    {α : Type} {relation : α → α → Prop} {among : α → Prop} {items : List α}
    (transitive : ∀ first second third, among first → among second → among third →
      relation first second → relation second third → relation first third)
    (isAmong : ∀ item ∈ items, among item) (chain : items.IsChain relation) :
    items.Pairwise relation := by
  induction items with
  | nil => exact .nil
  | cons first rest inductionHypothesis =>
      have restAmong : ∀ item ∈ rest, among item := fun item member =>
        isAmong item (List.mem_cons_of_mem first member)
      cases rest with
      | nil => exact List.pairwise_singleton _ _
      | cons second later =>
          obtain ⟨related, chainRest⟩ := List.isChain_cons_cons.mp chain
          have pairwise := inductionHypothesis restAmong chainRest
          refine List.pairwise_cons.mpr ⟨?_, pairwise⟩
          intro item member
          rcases List.mem_cons.mp member with rfl | isLater
          · exact related
          · exact transitive first second item (isAmong first List.mem_cons_self)
              (restAmong second List.mem_cons_self) (restAmong item member) related
              ((List.pairwise_cons.mp pairwise).1 item isLater)

section Neighbours

variable {heap : Heap} {relation : Value → Value → Action Bool} {holds : Value → Value → Bool}

/-- Comparing neighbours tells whether they form a chain. -/
theorem perform_eachHolds
    (first : Value) (rest : List Value)
    (decides : ∀ value ∈ first :: rest, ∀ next ∈ first :: rest,
      (relation value next).perform heap = (.ok (holds value next), heap)) :
    ∃ flag, (Arithmetic.eachHolds relation first rest).perform heap = (.ok flag, heap) ∧
      (flag = true ↔ (first :: rest).IsChain fun value next => holds value next = true) := by
  induction rest generalizing first with
  | nil => exact ⟨true, rfl, by simp⟩
  | cons second later inductionHypothesis =>
      have decided := decides first List.mem_cons_self second
        (List.mem_cons_of_mem first List.mem_cons_self)
      obtain ⟨flag, ran, isChain⟩ := inductionHypothesis second fun value member next isNext =>
        decides value (List.mem_cons_of_mem first member) next (List.mem_cons_of_mem first isNext)
      rw [Arithmetic.eachHolds, Action.perform_bind_ok decided]
      cases related : holds first second with
      | false => exact ⟨false, rfl, by simp [related]⟩
      | true => exact ⟨flag, ran, by simp [related, isChain]⟩

end Neighbours

/-! ## Equal keys -/

namespace Value

variable {first second : Value}

theorem toNumeric?_of_plainKey?
    (isPlain : first.IsPlainKey) (sameKind : first.plainKey? = second.plainKey?) :
    first.toNumeric? = second.toNumeric? := by
  cases first with
  | nil | bool | int | str | keyword =>
      cases second with
      | nil | bool | int | str | keyword => simp_all [plainKey?, toNumeric?]
      | _ => cases sameKind
  | _ => cases isPlain

/-- Whether a stored key that is not plain shares an entry with a number. -/
def sharesNumber : (stored : Value) → Option Numeric → Bool
  | .float number _, some other => (Numeric.float number).equal other
  | _, _ => false

/-- Spellings of one plain key share an entry with the same stored keys. -/
theorem sameKey_congr_of_plain
    (isPlain : first.IsPlainKey) (sameKind : first.plainKey? = second.plainKey?)
    (stored : Value) : sameKey stored first = sameKey stored second := by
  have isPlainToo : second.IsPlainKey := by rwa [IsPlainKey, ← sameKind]
  by_cases isStored : stored.IsPlainKey
  · rw [Bool.eq_iff_iff, sameKey_iff_of_plain isStored isPlain,
      sameKey_iff_of_plain isStored isPlainToo, sameKind]
  · have byNumber {probe : Value} (isProbe : probe.IsPlainKey) :
        sameKey stored probe = sharesNumber stored probe.toNumeric? := by
      cases stored with
      | nil | bool | int | str | keyword => exact absurd rfl isStored
      | float number birth =>
          cases probe with
          | nil | bool | int | str | keyword => cases number <;> rfl
          | _ => cases isProbe
      | _ =>
          cases probe with
          | nil | bool | int | str | keyword => rfl
          | _ => cases isProbe
    rw [byNumber isPlain, byNumber isPlainToo, toNumeric?_of_plainKey? isPlain sameKind]

/-- Whether a value holds others under keys: a map or a store. -/
def hasKeys : Value → Bool
  | .map .. | .store _ => true
  | _ => false

end Value

section Calls

variable {frames : Nat} {heap : Heap}

/-- A map or a store holds the same under equal plain keys. -/
theorem held?_congr_of_plain
    {collection first second : Value} (hasKeys : (heap.current collection).hasKeys = true)
    (isPlain : first.IsPlainKey) (sameKind : first.plainKey? = second.plainKey?) :
    held? heap collection first = held? heap collection second := by
  have isPlainToo : second.IsPlainKey := by rwa [Value.IsPlainKey, ← sameKind]
  have same (entries : ValueEntries) :
      ValueEntries.get? entries first = ValueEntries.get? entries second := by
    have found : Entries.find? Value.sameKey first entries =
        Entries.find? Value.sameKey second entries := by
      induction entries with
      | nil => rfl
      | cons entry rest inductionHypothesis =>
          obtain ⟨stored, value⟩ := entry
          rw [Entries.find?, Entries.find?, inductionHypothesis,
            Value.sameKey_congr_of_plain isPlain sameKind]
    rw [ValueEntries.get?, ValueEntries.get?, ValueEntries.withKey, ValueEntries.withKey,
      Value.isKey_of_isPlainKey isPlain, Value.isKey_of_isPlainKey isPlainToo, found]
  rw [held?, held?]
  cases now : heap.current collection with
  | map entries birth => simp only [same]
  | store id => simp only [same]
  | _ =>
      rw [now] at hasKeys
      cases hasKeys

theorem isCollection_of_hasKeys
    {collection : Value} (hasKeys : collection.hasKeys = true) :
    collection.isCollection = true := by
  cases collection with
  | map | store => rfl
  | _ => cases hasKeys

theorem countsForward_of_hasKeys
    {collection : Value} (hasKeys : collection.hasKeys = true) (key : Value) :
    Access.countsForward collection key = true := by
  cases collection with
  | map | store => cases key <;> rfl
  | _ => cases hasKeys

/-- What `get` and `contains?` tell of a key is told of its other spellings, too. -/
theorem perform_lookups_congr
    {collection first second default : Value} (hasKeys : (heap.current collection).hasKeys = true)
    (isPlain : first.IsPlainKey) (isPlainToo : second.IsPlainKey)
    (sameKind : first.plainKey? = second.plainKey?) :
    (callerOf (frames + 1) (.builtin .get) [collection, first, default]).perform heap =
        (callerOf (frames + 1) (.builtin .get) [collection, second, default]).perform heap ∧
      (callerOf (frames + 1) (.builtin .contains) [collection, first]).perform heap =
        (callerOf (frames + 1) (.builtin .contains) [collection, second]).perform heap := by
  have isCollection := isCollection_of_hasKeys hasKeys
  obtain ⟨found, held⟩ := @Access.exists_held_of_isPlainKey heap first collection isPlain
  have heldToo := (held?_congr_of_plain hasKeys isPlain sameKind).symm.trans held
  constructor
  · rw [Access.perform_callerOf_get_default held isCollection isPlain,
      Access.perform_callerOf_get_default heldToo isCollection isPlainToo]
  · rw [Access.perform_callerOf_contains_forward held isCollection isPlain
        (countsForward_of_hasKeys hasKeys first),
      Access.perform_callerOf_contains_forward heldToo isCollection isPlainToo
        (countsForward_of_hasKeys hasKeys second)]

/-- `=` compares two values as they are now. -/
theorem perform_equal_two (first second : Value) :
    (callerOf (frames + 1) (.builtin .equal) [first, second]).perform heap =
      (.ok (.bool ((heap.current first).equal (heap.current second))), heap) := by
  rw [perform_callerOf_builtin, List.map_cons, List.map_cons, List.map_nil]
  change (Call.allEqual [heap.current first, heap.current second] >>= fun flag =>
    (pure (.bool flag) : Action Value)).perform heap = _
  rw [Call.allEqual, Arithmetic.eachHolds]
  cases (heap.current first).equal (heap.current second) <;> rfl

/-- The function that compares by an order relation. -/
def Comparison.builtin : Comparison → Builtin
  | less => .less
  | greater => .greater
  | atMost => .atMost
  | atLeast => .atLeast

theorem Comparison.relates_trans
    {relation : Comparison} {a b c : Int} (first : relation.Relates a b)
    (second : relation.Relates b c) : relation.Relates a c := by
  cases relation with
  | less => exact Int.lt_trans first second
  | greater => exact Int.lt_trans second first
  | atMost => exact Int.le_trans first second
  | atLeast => exact Int.le_trans second first

/-- `=` on data holds just if any two of them are equal, and `not=` if not. -/
theorem perform_equal_data
    {args : List Value} (isSome : args ≠ []) (data : ∀ arg ∈ args, (heap.current arg).IsData)
    (numbered : Value.Numbered (args.map heap.current)) :
    ∃ flag,
      (callerOf (frames + 1) (.builtin .equal) args).perform heap = (.ok (.bool flag), heap) ∧
      (callerOf (frames + 1) (.builtin .notEqual) args).perform heap = (.ok (.bool !flag), heap) ∧
      (flag = true ↔ ∀ first ∈ args, ∀ second ∈ args,
        (callerOf (frames + 1) (.builtin .equal) [first, second]).perform heap =
          (.ok (.bool true), heap)) := by
  have world := Value.isWorld_of_numbered (List.forall_mem_map.mpr data) numbered
  have isAmong : ∀ value ∈ args.map heap.current,
      ∃ whole ∈ args.map heap.current, Value.Part whole value := fun value member =>
    ⟨value, member, .self⟩
  obtain ⟨first, rest, isArgs⟩ : ∃ first rest, args.map heap.current = first :: rest :=
    List.exists_cons_of_ne_nil (by simpa using isSome)
  obtain ⟨flag, ran, isChain⟩ := @perform_eachHolds heap
    (fun value next => pure (value.equal next)) Value.equal first rest fun _ _ _ _ => rfl
  refine ⟨flag, ?_, ?_, ?_⟩
  · rw [perform_callerOf_builtin, isArgs]
    change (Call.allEqual (first :: rest) >>= fun flag =>
      (pure (.bool flag) : Action Value)).perform heap = _
    rw [Call.allEqual, Action.perform_bind_ok ran]
    rfl
  · rw [perform_callerOf_builtin, isArgs]
    change (Call.allEqual (first :: rest) >>= fun flag =>
      (pure (.bool !flag) : Action Value)).perform heap = _
    rw [Call.allEqual, Action.perform_bind_ok ran]
    rfl
  · have told : (∀ first ∈ args, ∀ second ∈ args,
        (callerOf (frames + 1) (.builtin .equal) [first, second]).perform heap =
          (.ok (.bool true), heap)) ↔
        ∀ value ∈ args.map heap.current, ∀ other ∈ args.map heap.current,
          value.equal other = true := by
      simp [perform_equal_two]
    rw [isChain, ← isArgs, told]
    constructor
    · intro chain
      have pairwise := pairwise_of_isChain (fun _ _ _ => world.equal_trans) isAmong chain
      have flipped := pairwise.imp_of_mem fun isValue isOther isEqual =>
        world.equal_symm (isAmong _ isValue) (isAmong _ isOther) isEqual
      have selfEqual : ∀ value ∈ args.map heap.current, value.equal value = true :=
        fun value member => Value.equal_self (world.data value (isAmong value member))
      intro value isValue other isOther
      exact List.Pairwise.forall_of_forall_of_flip selfEqual pairwise flipped isValue isOther
    · intro all
      exact (List.pairwise_of_forall_mem_list all).isChain

/-- An order relation on integers holds just if it holds between each of them and all later
ones. -/
theorem perform_ordered_ints
    (relation : Comparison) {numbers : List Int} (isSome : numbers ≠ []) :
    ∃ flag,
      (callerOf (frames + 1) (.builtin relation.builtin) (numbers.map .int)).perform heap =
        (.ok (.bool flag), heap) ∧
      (flag = true ↔ numbers.Pairwise relation.Relates) := by
  obtain ⟨first, rest, rfl⟩ := List.exists_cons_of_ne_nil isSome
  have decides : ∀ value ∈ Value.int first :: rest.map .int,
      ∀ next ∈ Value.int first :: rest.map .int,
      (Action.ofExcept (Value.compares relation value next)).perform heap =
        (.ok ((value.compares relation next).toOption.getD false), heap) := by
    rw [← List.map_cons]
    intro value isValue next isNext
    obtain ⟨a, -, rfl⟩ := List.mem_map.mp isValue
    obtain ⟨b, -, rfl⟩ := List.mem_map.mp isNext
    rfl
  obtain ⟨flag, ran, isChain⟩ := perform_eachHolds (.int first) (rest.map .int) decides
  refine ⟨flag, ?_, ?_⟩
  · have isCurrent : ((first :: rest).map Value.int).map heap.current =
        .int first :: rest.map .int := by
      rw [List.map_map]
      exact List.map_congr_left fun number _ => Heap.current_int number
    have called : (callerOf (frames + 1) (.builtin relation.builtin)
        ((first :: rest).map .int)).perform heap =
          (Call.ordered relation (.int first :: rest.map .int)).perform heap := by
      rw [perform_callerOf_builtin, isCurrent]
      cases relation <;> rfl
    rw [called, Call.ordered, Action.perform_bind_ok ran]
    rfl
  · rw [isChain, ← List.map_cons, List.isChain_map]
    have same : (fun a b : Int =>
        ((Value.int a).compares relation (.int b)).toOption.getD false = true) =
          relation.Relates := by
      funext a b
      exact propext (relation.holds_compare_iff a b)
    rw [same]
    constructor
    · exact @pairwise_of_isChain Int relation.Relates (fun _ => True) (first :: rest)
        (fun _ _ _ _ _ _ => Comparison.relates_trans) fun _ _ => trivial
    · exact List.Pairwise.isChain

/-- Chains of comparisons are pairwise.

* `=` on data holds just if any two of them are equal, in either order, and `not=` is its
  negation.
* Equal plain keys have the same entry in every map and store.
* Maps of data are equal just if the entries of one can be put into an order in which they are
  equal to those of the other one by one.
* An order relation on integers holds just if it holds between each of them and all later
  ones. -/
theorem chains_pairwise :
    (∀ args : List Value, args ≠ [] → (∀ arg ∈ args, (heap.current arg).IsData) →
      Value.Numbered (args.map heap.current) →
      ∃ flag,
        (callerOf (frames + 1) (.builtin .equal) args).perform heap = (.ok (.bool flag), heap) ∧
        (callerOf (frames + 1) (.builtin .notEqual) args).perform heap =
          (.ok (.bool !flag), heap) ∧
        (flag = true ↔ ∀ first ∈ args, ∀ second ∈ args,
          (callerOf (frames + 1) (.builtin .equal) [first, second]).perform heap =
            (.ok (.bool true), heap))) ∧
    (∀ collection first second default : Value, (heap.current collection).hasKeys = true →
      first.IsPlainKey → second.IsPlainKey →
      (callerOf (frames + 1) (.builtin .equal) [first, second]).perform heap =
        (.ok (.bool true), heap) →
      (callerOf (frames + 1) (.builtin .get) [collection, first, default]).perform heap =
        (callerOf (frames + 1) (.builtin .get) [collection, second, default]).perform heap ∧
      (callerOf (frames + 1) (.builtin .contains) [collection, first]).perform heap =
        (callerOf (frames + 1) (.builtin .contains) [collection, second]).perform heap) ∧
    (∀ (first second : Value) (entries others : List (Value × Value)) (birth number : Nat),
      heap.current first = .map entries birth → heap.current second = .map others number →
      (heap.current first).IsData → (heap.current second).IsData →
      Value.Numbered [heap.current first, heap.current second] →
      ∃ flag,
        (callerOf (frames + 1) (.builtin .equal) [first, second]).perform heap =
          (.ok (.bool flag), heap) ∧
        (flag = true ↔ ∃ arranged, arranged.Perm others ∧
          List.Forall₂ (fun entry other =>
            entry.1.equal other.1 = true ∧ entry.2.equal other.2 = true) entries arranged)) ∧
    ∀ (relation : Comparison) (numbers : List Int), numbers ≠ [] →
      ∃ flag,
        (callerOf (frames + 1) (.builtin relation.builtin) (numbers.map .int)).perform heap =
          (.ok (.bool flag), heap) ∧
        (flag = true ↔ numbers.Pairwise relation.Relates) := by
  refine ⟨?_, ?_, ?_, ?_⟩
  · intro args isSome data numbered
    exact perform_equal_data isSome data numbered
  · intro collection first second default hasKeys isPlain isPlainToo isEqual
    rw [perform_equal_two, Heap.current_of_isPlainKey isPlain,
      Heap.current_of_isPlainKey isPlainToo] at isEqual
    have areEqual : first.equal second = true := by simpa using isEqual
    have sameKind := (Value.equal_iff_of_plain isPlain isPlainToo).mp areEqual
    exact perform_lookups_congr hasKeys isPlain isPlainToo sameKind
  · intro first second entries others birth number isFirst isSecond data dataToo numbered
    refine ⟨_, perform_equal_two first second, ?_⟩
    have world := Value.isWorld_of_numbered
      (by simp only [List.forall_mem_cons]; exact ⟨data, dataToo, by simp⟩) numbered
    rw [isFirst, isSecond] at world ⊢
    exact world.equal_map_iff_perm ⟨_, List.mem_cons_self, .self⟩
      ⟨_, List.mem_cons_of_mem _ List.mem_cons_self, .self⟩
  · exact fun relation numbers isSome => perform_ordered_ints relation isSome

end Calls

/-- A map from `:a` to 1, and from 1 to a list. -/
def spelled : Value :=
  .map [(.keyword "a", .int 1), (.int 1, .list [.bool true] 3)] 2

/-- The same map with its entries in another order and other spellings. -/
def respelled : Value :=
  .map [(.bool true, .list [.int 1] 5), (.str "a", .bool true)] 4

theorem part_spelled {whole part : Value} (isWhole : whole ∈ [spelled, respelled])
    (isPart : Value.Part whole part) :
    part = spelled ∨ part = respelled ∨ part = .int 1 ∨ part = .bool true ∨
      part = .list [.bool true] 3 ∨ part = .list [.int 1] 5 := by
  have atom {value : Value} (isPart : Value.Part value part) (isPlain : value.IsPlainKey) :
      part = value := by
    cases isPart with
    | self => rfl
    | _ => cases isPlain
  have inList {item : Value} {birth : Nat} (isPart : Value.Part (.list [item] birth) part)
      (isPlain : item.IsPlainKey) : part = .list [item] birth ∨ part = item := by
    cases isPart with
    | self => exact .inl rfl
    | item member inside =>
        obtain rfl := List.mem_singleton.mp member
        exact .inr (atom inside isPlain)
  simp only [List.mem_cons, List.not_mem_nil, or_false] at isWhole
  rcases isWhole with rfl | rfl
  · cases isPart with
    | self => exact .inl rfl
    | entry member inside =>
        simp only [List.mem_cons, List.not_mem_nil, or_false] at member
        rcases member with rfl | rfl
        · simp [atom inside rfl]
        · rcases inList inside rfl with rfl | rfl <;> simp
  · cases isPart with
    | self => simp
    | entry member inside =>
        simp only [List.mem_cons, List.not_mem_nil, or_false] at member
        rcases member with rfl | rfl
        · rcases inList inside rfl with rfl | rfl <;> simp
        · simp [atom inside rfl]

theorem numbered_spelled : Value.Numbered [spelled, respelled] := by
  intro first isFirst second isSecond part other isPart isOther same
  rcases part_spelled isFirst isPart with rfl | rfl | rfl | rfl | rfl | rfl <;>
    rcases part_spelled isSecond isOther with rfl | rfl | rfl | rfl | rfl | rfl <;>
    first | rfl | cases same

theorem isData_spelled : spelled.IsData ∧ respelled.IsData := by
  have atom {value : Value} (isPlain : value.IsPlainKey) : value.IsData := .plain isPlain
  have inList {item : Value} {birth : Nat} (isPlain : item.IsPlainKey) :
      (Value.list [item] birth).IsData := by
    refine .list fun value member => ?_
    obtain rfl := List.mem_singleton.mp member
    exact atom isPlain
  constructor
  · refine .map ⟨?_, by decide⟩ ?_
    · simp only [Entries.keys, List.map_cons, List.map_nil, List.forall_mem_cons]
      exact ⟨rfl, rfl, List.forall_mem_nil _⟩
    · simp only [List.forall_mem_cons]
      exact ⟨atom rfl, inList rfl, List.forall_mem_nil _⟩
  · refine .map ⟨?_, by decide⟩ ?_
    · simp only [Entries.keys, List.map_cons, List.map_nil, List.forall_mem_cons]
      exact ⟨rfl, rfl, List.forall_mem_nil _⟩
    · simp only [List.forall_mem_cons]
      exact ⟨inList rfl, atom rfl, List.forall_mem_nil _⟩

theorem equal_one_true :
    (callerOf 1 (.builtin .equal) [.int 1, .bool true]).perform Heap.empty =
      (.ok (.bool true), Heap.empty) := by
  rw [perform_equal_two]
  have isPlain : (Value.int 1).IsPlainKey := rfl
  have isPlainToo : (Value.bool true).IsPlainKey := rfl
  have same : (Value.int 1).equal (.bool true) = true :=
    (Value.equal_iff_of_plain isPlain isPlainToo).mpr rfl
  exact congrArg (fun flag => (Except.ok (Value.bool flag), Heap.empty)) same

theorem chains_pairwise_spelled :
    (∀ arg ∈ [spelled, respelled], (Heap.empty.current arg).IsData) ∧
      Value.Numbered ([spelled, respelled].map Heap.empty.current) ∧
      (∃ flag,
        (callerOf 1 (.builtin .equal) [spelled, respelled]).perform Heap.empty =
          (.ok (.bool flag), Heap.empty) ∧
        (callerOf 1 (.builtin .notEqual) [spelled, respelled]).perform Heap.empty =
          (.ok (.bool !flag), Heap.empty) ∧
        (flag = true ↔ ∀ first ∈ [spelled, respelled], ∀ second ∈ [spelled, respelled],
          (callerOf 1 (.builtin .equal) [first, second]).perform Heap.empty =
            (.ok (.bool true), Heap.empty))) ∧
      (callerOf 1 (.builtin .get) [spelled, .int 1, .nil]).perform Heap.empty =
        (callerOf 1 (.builtin .get) [spelled, .bool true, .nil]).perform Heap.empty ∧
      (∃ flag,
        (callerOf 1 (.builtin .equal) [spelled, respelled]).perform Heap.empty =
          (.ok (.bool flag), Heap.empty) ∧
        (flag = true ↔ ∃ arranged,
          arranged.Perm [(.bool true, .list [.int 1] 5), (.str "a", .bool true)] ∧
          List.Forall₂ (fun entry other : Value × Value =>
            entry.1.equal other.1 = true ∧ entry.2.equal other.2 = true)
            [(.keyword "a", .int 1), (.int 1, .list [.bool true] 3)] arranged)) ∧
      ∃ flag,
        (callerOf 1 (.builtin .atMost) [.int 1, .int 1, .int 3]).perform Heap.empty =
          (.ok (.bool flag), Heap.empty) ∧
        (flag = true ↔ [1, 1, 3].Pairwise Comparison.atMost.Relates) := by
  have data : ∀ arg ∈ [spelled, respelled], (Heap.empty.current arg).IsData := by
    simp only [List.forall_mem_cons]
    exact ⟨isData_spelled.1, isData_spelled.2, List.forall_mem_nil _⟩
  refine ⟨data, numbered_spelled, ?_, ?_, ?_, ?_⟩
  · exact (@chains_pairwise 0 Heap.empty).1 _ (List.cons_ne_nil _ _) data numbered_spelled
  · exact ((@chains_pairwise 0 Heap.empty).2.1 spelled (.int 1) (.bool true) .nil rfl rfl rfl
      equal_one_true).1
  · exact (@chains_pairwise 0 Heap.empty).2.2.1 spelled respelled _ _ 2 4 rfl rfl
      isData_spelled.1 isData_spelled.2 numbered_spelled
  · exact (@chains_pairwise 0 Heap.empty).2.2.2 .atMost [1, 1, 3] (List.cons_ne_nil _ _)

end CueScript
